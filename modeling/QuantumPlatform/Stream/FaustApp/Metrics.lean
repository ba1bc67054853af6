import QuantumPlatform.Process.Along
import QuantumPlatform.Stream.FaustApp
import Mathlib.Data.List.MinMax

namespace QuantumPlatform.Stream

open Process WindowTable

def mean {𝕂 : Type} [Field 𝕂] (values : List 𝕂) : 𝕂 := values.sum / values.length

variable {𝕂 : Type}

section totals

variable (deliveries : List (VQEDelivery 𝕂))

def energies : List 𝕂 := deliveries.map fun delivery => delivery.event.energy
def quantumTimes : List 𝕂 := deliveries.map fun delivery => delivery.event.quantumTimeS
def classicalTimes : List 𝕂 := deliveries.map fun delivery => delivery.event.classicalTimeS
def retryCounts : List Int := deliveries.map fun delivery => delivery.event.retryCount
def tripCounts : List Int := deliveries.map fun delivery => delivery.event.circuitBreakerTrips

variable (delivery : VQEDelivery 𝕂)

@[simp] theorem energies_concat :
    energies (deliveries ++ [delivery]) = energies deliveries ++ [delivery.event.energy] := by
  simp [energies]

@[simp] theorem quantumTimes_concat :
    quantumTimes (deliveries ++ [delivery]) =
      quantumTimes deliveries ++ [delivery.event.quantumTimeS] := by
  simp [quantumTimes]

@[simp] theorem classicalTimes_concat :
    classicalTimes (deliveries ++ [delivery]) =
      classicalTimes deliveries ++ [delivery.event.classicalTimeS] := by
  simp [classicalTimes]

@[simp] theorem retryCounts_concat :
    retryCounts (deliveries ++ [delivery]) =
      retryCounts deliveries ++ [delivery.event.retryCount] := by
  simp [retryCounts]

@[simp] theorem tripCounts_concat :
    tripCounts (deliveries ++ [delivery]) =
      tripCounts deliveries ++ [delivery.event.circuitBreakerTrips] := by
  simp [tripCounts]

end totals

variable [Field 𝕂] [LinearOrder 𝕂] [FloorRing 𝕂]

-- The events of one window of one experiment, by the times of their messages.
def windowDeliveries (experimentId : String) (window : Int) (deliveries : List (VQEDelivery 𝕂)) :
    List (VQEDelivery 𝕂) :=
  among (fun delivery => delivery.event.experimentId) (fun delivery => tumbling delivery.timestamp)
    experimentId window deliveries

-- The stored state is the aggregate of exactly these events.
structure VQEWindowState.Aggregates (state : VQEWindowState 𝕂)
    (deliveries : List (VQEDelivery 𝕂)) : Prop where
  iterationCount : state.iterationCount = deliveries.length
  energySum : state.energySum = (energies deliveries).sum
  bestEnergy : state.bestEnergy = (energies deliveries).minimum
  quantumTimeSum : state.quantumTimeSum = (quantumTimes deliveries).sum
  classicalTimeSum : state.classicalTimeSum = (classicalTimes deliveries).sum
  retryCount : state.retryCount = (retryCounts deliveries).sum
  circuitBreakerTrips : state.circuitBreakerTrips = (tripCounts deliveries).sum

-- The emitted event describes exactly these events.
structure VQEWindowMetricsEvent.Describes (metric : VQEWindowMetricsEvent 𝕂)
    (deliveries : List (VQEDelivery 𝕂)) : Prop where
  iterationCount : metric.iterationCount = deliveries.length
  avgEnergy : metric.avgEnergy = mean (energies deliveries)
  bestEnergy : metric.bestEnergy = (energies deliveries).minimum
  avgQuantumTimeS : metric.avgQuantumTimeS = mean (quantumTimes deliveries)
  avgClassicalTimeS : metric.avgClassicalTimeS = mean (classicalTimes deliveries)
  quantumClassicalRatio : metric.quantumClassicalRatio =
    if mean (classicalTimes deliveries) = 0 then 0
    else mean (quantumTimes deliveries) / mean (classicalTimes deliveries)
  retryCount : metric.retryCount = (retryCounts deliveries).sum
  circuitBreakerTrips : metric.circuitBreakerTrips = (tripCounts deliveries).sum

-- What is stored for the window of the last event and what has been emitted for it
-- cover the events of this window so far.
def CoversWindow (seen : List (VQEDelivery 𝕂)) (delivery : VQEDelivery 𝕂) : Prop :=
  let experimentId := delivery.event.experimentId
  let window := tumbling delivery.timestamp
  let covered := windowDeliveries experimentId window (seen ++ [delivery])
  ((vqeWindowStates (seen ++ [delivery])).stored experimentId window).Aggregates covered ∧
    (processVqeIteration (vqeWindowStates seen) delivery).2.Describes covered

-- The same messages at the same times, with energies, times and counts of their own.
structure VQEDelivery.SameTiming (first second : VQEDelivery 𝕂) : Prop where
  experimentId : second.event.experimentId = first.event.experimentId
  timestamp : second.timestamp = first.timestamp
  readAt : second.readAt = first.readAt

-- The wall clock is in the event's own window, or both windows are new to the experiment.
def ReadsOwnOrNew (seen : List (VQEDelivery 𝕂)) (delivery : VQEDelivery 𝕂) : Prop :=
  tumbling delivery.readAt = tumbling delivery.timestamp ∨
    windowDeliveries delivery.event.experimentId (tumbling delivery.readAt) seen = [] ∧
      windowDeliveries delivery.event.experimentId (tumbling delivery.timestamp) seen = []

end QuantumPlatform.Stream
