import QuantumPlatform.Python.DefaultDict
import QuantumPlatform.Python.Deque
import QuantumPlatform.Python.Exception
import QuantumPlatform.Statistics.Rounding

namespace QuantumPlatform.Stream

open Python Statistics

-- `_samples`; the deques have the window's size as their `maxlen`.
structure RollingErrorRate (𝕂 : Type) (windowSize : Nat) where
  samples : Dict String (Deque 𝕂 windowSize) := ∅

namespace RollingErrorRate

variable {𝕂 : Type} {windowSize : Nat}

-- `sum(window) / len(window)` in the arithmetic of the samples. The window has the sample also
-- when there is nothing to divide by, which is so when the window has no room for it.
def addSample (arithmetic : Arithmetic 𝕂) (rolling : RollingErrorRate 𝕂 windowSize)
    (backendName : String) (errorRate : 𝕂) :
    RollingErrorRate 𝕂 windowSize × Except Exc 𝕂 :=
  let samples := rolling.samples.touch backendName ∅
  let window := (samples.get backendName ∅).append errorRate
  (⟨samples.set backendName window⟩,
    if window.items.length = 0 then .error ⟨.named "ZeroDivisionError", "division by zero"⟩
    else .ok (arithmetic.mean window.items))

-- Asking stores an empty window for a backend without one.
def sampleCount (rolling : RollingErrorRate 𝕂 windowSize) (backendName : String) :
    RollingErrorRate 𝕂 windowSize × Nat :=
  let samples := rolling.samples.touch backendName ∅
  (⟨samples⟩, (samples.get backendName ∅).items.length)

end RollingErrorRate

end QuantumPlatform.Stream
