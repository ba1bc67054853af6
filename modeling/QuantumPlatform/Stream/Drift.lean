import Mathlib.Algebra.Order.Field.Basic

namespace QuantumPlatform.Stream

variable {𝕂 : Type} [Field 𝕂] [LinearOrder 𝕂]

def MIN_SAMPLES_FOR_ZSCORE : Nat := 2

structure WelfordStats (𝕂 : Type) [Zero 𝕂] where
  count : Nat := 0
  mean : 𝕂 := 0
  m2 : 𝕂 := 0

namespace WelfordStats

def variance (stats : WelfordStats 𝕂) : 𝕂 :=
  if stats.count < MIN_SAMPLES_FOR_ZSCORE then 0 else stats.m2 / (stats.count - 1)

-- `root` stands for `** 0.5`.
def stddev (root : 𝕂 → 𝕂) (stats : WelfordStats 𝕂) : 𝕂 := root stats.variance

def update (stats : WelfordStats 𝕂) (value : 𝕂) : WelfordStats 𝕂 :=
  let count := stats.count + 1
  let delta := value - stats.mean
  let mean := stats.mean + delta / count
  let delta2 := value - mean
  ⟨count, mean, stats.m2 + delta * delta2⟩

def zscore (root : 𝕂 → 𝕂) (stats : WelfordStats 𝕂) (value : 𝕂) : Option 𝕂 :=
  if stats.count < MIN_SAMPLES_FOR_ZSCORE ∨ stats.stddev root = 0 then none
  else some ((value - stats.mean) / stats.stddev root)

end WelfordStats

end QuantumPlatform.Stream
