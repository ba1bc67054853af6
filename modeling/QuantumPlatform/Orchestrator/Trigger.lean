import QuantumPlatform.Orchestrator.Calibration

namespace QuantumPlatform.Orchestrator

open Process Python QuantumPlatform.Core

-- The calibration loop of a worker and the event it shares with handle_message.
-- An asyncio.Event is a flag.
structure CalibrationTask where
  trigger : Bool
  loop : Program sig (Except Exc Unit)

namespace CalibrationTask

-- handle_message sets the event, or an operation of the loop is answered.
inductive Label where
  | set
  | loop (event : Event sig)

def triggerAfter (trigger : Bool) : Effect → Bool
  | .triggerClear => false
  | .triggerSet => true
  | _ => trigger

-- A wait returns only while the event is set. It may time out at any moment,
-- also when the event has just been set.
def Answers (trigger : Bool) : (op : Effect) → op.Ans → Prop
  | .triggerWait _, woken => woken = true → trigger = true
  | _, _ => True

inductive Step : CalibrationTask → Label → CalibrationTask → Prop where
  | set (task : CalibrationTask) : Step task .set { task with trigger := true }
  | perform (trigger : Bool) (op : Effect) (next : op.Ans → Program sig (Except Exc Unit))
      (answer : op.Ans) (hanswer : Answers trigger op answer) :
      Step ⟨trigger, .call op next⟩ (.loop ⟨op, answer⟩) ⟨triggerAfter trigger op, next answer⟩

-- A worker starts with the event cleared.
def start (env : Env) (cycles : Nat) : CalibrationTask :=
  ⟨false, (runCalibrationLoop env cycles).run⟩

section labels

namespace Label

def isSet : Label → Bool
  | .set => true
  | _ => false

def isClear : Label → Bool
  | .loop event => match event.1 with
    | .triggerClear => true
    | _ => false
  | _ => false

-- Submitting the Bell circuit is the first thing a probe does.
def isProbe : Label → Bool
  | .loop event => match event.1 with
    | .submit _ => true
    | _ => false
  | _ => false

def isTimeout : Label → Bool
  | .loop ⟨.triggerWait _, woken⟩ => !woken
  | _ => false

end Label

variable (labels : List Label)

def clears : Nat := labels.countP Label.isClear
def sets : Nat := labels.countP Label.isSet
def timeouts : Nat := labels.countP Label.isTimeout

-- Each clear begins a cycle.
def cycles : List (List Label) := (labels.splitOnP Label.isClear).tail

-- The cycles during which a probe was requested.
def requests : Nat := (cycles labels).countP fun cycle => cycle.any Label.isSet

end labels

variable (task : CalibrationTask) (labels : List Label)

def Parked : Prop := ∃ timeout next, task.loop = .call (.triggerWait timeout) next

-- A probe has begun, but the backend has not taken its circuit yet.
def submitting : Nat := match task.loop with
  | .call (.submit _) _ => 1
  | _ => 0

def probes : Nat := labels.countP Label.isProbe + task.submitting

-- No request is lost, and no probe is made without a reason.
structure Coalesces : Prop where
  kept : task.Parked → task.trigger = false → ∀ before after, labels = before ++ .set :: after →
    ∃ label ∈ after, label.isProbe = true
  bounded : task.probes labels ≤ 1 + timeouts labels + sets labels
  once : task.probes labels ≤ 1 + timeouts labels + requests labels

end CalibrationTask

-- Where the loop is: between two cycles, at the start of one, or past the start
-- of its probe.
inductive CyclePhase where
  | idle
  | cleared
  | probing
deriving DecidableEq

-- Every cycle clears the event, then starts a probe, and then waits.
def cycling : Monitor sig CyclePhase where
  allowed phase op := match phase, op with
    | .idle, .triggerClear => True
    | .cleared, .submit _ => True
    | .probing, .triggerClear => False
    | .probing, .triggerSet => False
    | .probing, .submit _ => False
    | .probing, _ => True
    | _, _ => False
  admits _ _ _ := True
  next phase op _ := match op with
    | .triggerClear => .cleared
    | .submit _ => .probing
    | .triggerWait _ => .idle
    | _ => phase

end QuantumPlatform.Orchestrator
