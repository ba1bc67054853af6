import QuantumPlatform.Orchestrator.Log

namespace QuantumPlatform.Orchestrator

open Process Python QuantumPlatform.Core

-- The row the policy reads back for a saved result.
def CalibrationResult.observation (result : CalibrationResult) : CalibrationObservation :=
  { backendName := result.backendName, observedAt := result.timestamp,
    errorRate := result.errorRate, shots := result.shots }

-- The probe's job ended COMPLETED with at least one counted shot.
def Measured (probe : ExperimentResult) : Prop :=
  probe.status = .completed ∧ ∃ counts, probe.counts = some counts ∧ 0 < counts.values.sum

def oddParity (counts : Dict String Int) : Int := counts.get "01" 0 + counts.get "10" 0

variable (demoErrorRate : ℚ)

-- The demo hook is on, with a rate that makes it raise.
def DemoInvalid : Prop := demoErrorRate ≠ 0 ∧ ¬ (0 ≤ demoErrorRate ∧ demoErrorRate ≤ 1)

-- The saved result is what the probe measured. The demo hook moves counts, but
-- leaves their total as it is.
structure Genuine (probe : ExperimentResult) (saved : CalibrationResult) : Prop where
  measured : Measured probe
  total : saved.counts.values.sum = (probe.counts.getD ∅).values.sum
  plain : demoErrorRate = 0 → saved.counts = probe.counts.getD ∅
  errorRate : saved.errorRate = (oddParity saved.counts : ℚ) / saved.counts.values.sum

-- The saved result is computed from the probe, whatever that was.
structure Computed (probe : ExperimentResult) (saved : CalibrationResult) : Prop where
  counts : probeCounts demoErrorRate probe = .ok saved.counts
  errorRate : saved.errorRate = (oddParity saved.counts : ℚ) / probeTotal saved.counts

-- What is saved, together with the job last fetched before.
abbrev Saved := Option (JobHandle × ExperimentResult) × CalibrationResult

def Saved.Computed (entry : Saved) : Prop :=
  ∃ handle probe, entry.1 = some (handle, probe) ∧
    Orchestrator.Computed demoErrorRate probe entry.2

def Saved.Genuine (entry : Saved) : Prop :=
  ∃ handle probe, entry.1 = some (handle, probe) ∧
    Orchestrator.Genuine demoErrorRate probe entry.2

-- A saved row comes from a probe that measured it, and so does every decision
-- to allow an execution that the policy takes on it.
def Saved.Honest (entry : Saved) : Prop :=
  entry.Genuine demoErrorRate ∧
    ∀ (policy : CalibrationPolicy) (now : Int),
      policy.evaluate (some entry.2.observation) now = .allow →
        ∃ handle probe, entry.1 = some (handle, probe) ∧ Measured probe

-- What is saved is computed from a probe that was fetched before.
def Log.Sound (log : Log) : Prop :=
  ∀ entry ∈ log.saved, Saved.Computed demoErrorRate entry ∧
    ∀ probe, entry.1 = some probe → probe ∈ log.fetched

-- Every fetched probe was saved, unless the demo hook raises.
def Log.Settled (log : Log) : Prop :=
  DemoInvalid demoErrorRate ∨ ∀ probe ∈ log.fetched, ∃ row, (some probe, row) ∈ log.saved

-- A monitor of the calibration loop: only computed results may be saved.
def probing : Monitor sig Log where
  allowed log
    | .calibrationSave result => Saved.Computed demoErrorRate (log.fetched.getLast?, result)
    | _ => True
  admits _ _ _ := True
  next log op answer := log.after op answer

end QuantumPlatform.Orchestrator
