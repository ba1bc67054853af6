import QuantumPlatform.Process.Keyed
import QuantumPlatform.Python.DefaultDict
import QuantumPlatform.Stream.Alerting.Lemmas

namespace QuantumPlatform.Stream

open Process Python

variable {𝕂 : Type} [LinearOrder 𝕂]

structure AlertTracker (𝕂 : Type) where
  settings : Hysteresis 𝕂
  states : Dict String AlertState := ∅

namespace AlertTracker

def evaluate (tracker : AlertTracker 𝕂) (backendName : String) (value : 𝕂) :
    AlertTracker 𝕂 × Option (AlertTransition 𝕂) :=
  let states := tracker.states.touch backendName {}
  let (newState, transition) :=
    step tracker.settings backendName (states.get backendName {}) value
  ({ tracker with states := states.set backendName newState }, transition)

-- A backend that has not been evaluated is not stored by this.
def currentLevel (tracker : AlertTracker 𝕂) (backendName : String) : AlertLevel :=
  match tracker.states.get? backendName with
  | some state => state.level
  | none => .OK

end AlertTracker

inductive TrackerCall (𝕂 : Type) where
  | evaluate (backendName : String) (value : 𝕂)
  | currentLevel (backendName : String)

-- The sample that a call brings for a backend.
def TrackerCall.sample (backendName : String) : TrackerCall 𝕂 → Option 𝕂
  | .evaluate name value => if name = backendName then some value else none
  | .currentLevel _ => none

namespace AlertTracker

def perform (tracker : AlertTracker 𝕂) : TrackerCall 𝕂 → AlertTracker 𝕂
  | .evaluate backendName value => (tracker.evaluate backendName value).1
  | .currentLevel _ => tracker

-- A new tracker after a series of calls.
def after (settings : Hysteresis 𝕂) (calls : List (TrackerCall 𝕂)) : AlertTracker 𝕂 :=
  calls.foldl perform { settings }

omit [LinearOrder 𝕂] in
theorem currentLevel_eq (tracker : AlertTracker 𝕂) (backendName : String) :
    tracker.currentLevel backendName = (tracker.states.get backendName {}).level := by
  unfold currentLevel Dict.get
  cases tracker.states.get? backendName with
  | none => rfl
  | some state => rfl

-- The tracker stores these states, if only by default.
def Stores (settings : Hysteresis 𝕂) (tracker : AlertTracker 𝕂) (states : String → AlertState) :
    Prop :=
  tracker.settings = settings ∧ ∀ backendName, tracker.states.get backendName {} = states backendName

theorem Stores.perform {settings : Hysteresis 𝕂} {tracker : AlertTracker 𝕂}
    {states : String → AlertState} (h : Stores settings tracker states) (call : TrackerCall 𝕂) :
    Stores settings (tracker.perform call)
      (Keyed.advance TrackerCall.sample
        (fun backendName state value => (step settings backendName state value).1) states call) := by
  cases call with
  | currentLevel backendName => exact h
  | evaluate backendName value =>
      obtain ⟨rfl, hstates⟩ := h
      refine ⟨rfl, fun other => ?_⟩
      have hset := Dict.get_touch_set tracker.states backendName other {}
        (step tracker.settings backendName (states backendName) value).1
      simp only [AlertTracker.perform, evaluate, Dict.get_touch, hstates backendName]
      rw [hset, Keyed.advance, TrackerCall.sample, ← hstates other]
      by_cases hname : other = backendName
      · subst hname
        rw [if_pos rfl, if_pos rfl, hstates]
      · rw [if_neg hname, if_neg (Ne.symm hname)]

-- Whatever is called for other backends, a backend's state is that after its own samples.
theorem after_stores (settings : Hysteresis 𝕂) (calls : List (TrackerCall 𝕂)) :
    Stores settings (after settings calls) fun backendName =>
      steps settings backendName (Keyed.ownOf TrackerCall.sample backendName calls) :=
  Keyed.foldl_folded (fun _ _ call h => h.perform call)
    (⟨rfl, fun _ => rfl⟩ : Stores settings { settings } fun _ => {}) calls

end AlertTracker

end QuantumPlatform.Stream
