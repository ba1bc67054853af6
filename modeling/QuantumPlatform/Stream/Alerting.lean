import QuantumPlatform.Python.Exception
import Mathlib.Algebra.Order.Field.Basic

namespace QuantumPlatform.Stream

open Python

inductive AlertLevel where
  | OK
  | ALERT
deriving DecidableEq, Repr

namespace AlertLevel

def value : AlertLevel → String
  | .OK => "ok"
  | .ALERT => "alert"

-- AlertLevel(value)
def ofValue (text : String) : Except Exc AlertLevel :=
  if text = AlertLevel.OK.value then .ok .OK
  else if text = AlertLevel.ALERT.value then .ok .ALERT
  else .error (Exc.valueError ("'" ++ text ++ "' is not a valid AlertLevel"))

@[simp] theorem ofValue_value (level : AlertLevel) : ofValue level.value = .ok level := by
  cases level with
  | OK => rfl
  | ALERT => rfl

end AlertLevel

structure AlertState where
  level : AlertLevel := .OK
  consecutiveBreaches : Nat := 0
  consecutiveOk : Nat := 0
deriving DecidableEq, Repr

variable {𝕂 : Type} [LinearOrder 𝕂]

structure AlertTransition (𝕂 : Type) where
  backendName : String
  level : AlertLevel
  value : 𝕂
  threshold : 𝕂

structure Hysteresis (𝕂 : Type) where
  threshold : 𝕂
  breachStreak : Nat
  recoveryStreak : Nat

-- DEFAULT_THRESHOLD, DEFAULT_BREACH_STREAK and DEFAULT_RECOVERY_STREAK.
def defaultHysteresis [Field 𝕂] : Hysteresis 𝕂 := ⟨5 / 100, 3, 3⟩

def step (settings : Hysteresis 𝕂) (backendName : String) (state : AlertState) (value : 𝕂) :
    AlertState × Option (AlertTransition 𝕂) :=
  if settings.threshold < value then
    let breaches := state.consecutiveBreaches + 1
    if state.level = .OK ∧ settings.breachStreak ≤ breaches then
      (⟨.ALERT, breaches, 0⟩, some ⟨backendName, .ALERT, value, settings.threshold⟩)
    else ({ state with consecutiveBreaches := breaches, consecutiveOk := 0 }, none)
  else
    let okCount := state.consecutiveOk + 1
    if state.level = .ALERT ∧ settings.recoveryStreak ≤ okCount then
      (⟨.OK, 0, okCount⟩, some ⟨backendName, .OK, value, settings.threshold⟩)
    else ({ state with consecutiveBreaches := 0, consecutiveOk := okCount }, none)

end QuantumPlatform.Stream
