import QuantumPlatform.Orchestrator.Worker

namespace QuantumPlatform.Orchestrator

open Process Python QuantumPlatform.Core

-- The monotonic clock does not go back, and it moves on while a coroutine
-- sleeps. No loop may be cut off.
def clocked : Monitor sig ℚ where
  allowed _ op := match op with
    | .hang => False
    | _ => True
  admits clock op answer := match op, answer with
    | .monotonic, now => clock ≤ (now : ℚ)
    | _, _ => True
  next clock op answer := match op, answer with
    | .monotonic, now => (now : ℚ)
    | .sleep seconds, _ => clock + seconds
    | _, _ => clock

-- The loops of env may turn often enough: every pause takes at least `pause`,
-- and that many pauses outlast the timeout of a wait.
structure Patient (env : Env) (pause : ℚ) : Prop where
  positive : 0 < pause
  initial : pause ≤ env.settings.pollingInitialInterval
  max : pause ≤ env.settings.pollingMaxInterval
  once : pause ≤ executionConfig.initialInterval
  outlast : executionConfig.timeout < (env.fuel - 1) * pause

end QuantumPlatform.Orchestrator
