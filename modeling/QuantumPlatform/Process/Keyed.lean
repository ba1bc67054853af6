import Mathlib.Data.List.Induction

namespace QuantumPlatform.Process

namespace Keyed

variable {κ ε ι σ State Exc : Type}

-- The inputs that a series of events has for one key.
def ownOf (inputOf : κ → ε → Option ι) (key : κ) (events : List ε) : List ι :=
  events.filterMap (inputOf key)

-- What an event makes of the states of all keys.
def advance (inputOf : κ → ε → Option ι) (next : κ → σ → ι → σ) (states : κ → σ) (event : ε) :
    κ → σ := fun key =>
  match inputOf key event with
  | some input => next key (states key) input
  | none => states key

-- The states of all keys after a series: each has been folded over its own inputs.
def folded (inputOf : κ → ε → Option ι) (next : κ → σ → ι → σ) (states : κ → σ)
    (events : List ε) : κ → σ := fun key =>
  (ownOf inputOf key events).foldl (next key) (states key)

variable {inputOf : κ → ε → Option ι} {next : κ → σ → ι → σ} {states : κ → σ}

theorem ownOf_concat (key : κ) (events : List ε) (event : ε) :
    ownOf inputOf key (events ++ [event]) = ownOf inputOf key events ++ (inputOf key event).toList := by
  unfold ownOf
  rw [List.filterMap_append]
  cases h : inputOf key event with
  | none => simp [h]
  | some input => simp [h]

theorem folded_concat (events : List ε) (event : ε) :
    folded inputOf next states (events ++ [event]) =
      advance inputOf next (folded inputOf next states events) event := by
  funext key
  simp only [folded, advance, ownOf_concat, List.foldl_append]
  cases inputOf key event with
  | none => rfl
  | some input => rfl

-- The state may be the inputs themselves.
theorem folded_inputs (events : List ε) :
    folded inputOf (fun _ own input => own ++ [input]) (fun _ => []) events =
      fun key => ownOf inputOf key events := by
  funext key
  unfold folded
  induction ownOf inputOf key events using List.reverseRecOn with
  | nil => rfl
  | append_singleton inputs input ih => rw [List.foldl_append, ih, List.foldl_cons, List.foldl_nil]

-- A store that follows the states of all keys event by event follows them over a series.
theorem foldlM_folded {holds : State → (κ → σ) → Prop} {perform : State → ε → Except Exc State}
    (hstep : ∀ store states event, holds store states →
      ∃ later, perform store event = .ok later ∧ holds later (advance inputOf next states event))
    {store : State} (hstore : holds store states) (events : List ε) :
    ∃ later, events.foldlM perform store = .ok later ∧
      holds later (folded inputOf next states events) := by
  induction events using List.reverseRecOn with
  | nil => exact ⟨store, rfl, hstore⟩
  | append_singleton events event ih =>
      obtain ⟨before, hbefore, hholds⟩ := ih
      obtain ⟨later, hlater, hadvanced⟩ := hstep before _ event hholds
      refine ⟨later, ?_, ?_⟩
      · rw [List.foldlM_append, hbefore]
        change (perform before event >>= pure) = _
        rw [hlater]
        rfl
      · rw [folded_concat]
        exact hadvanced

theorem foldl_folded {holds : State → (κ → σ) → Prop} {perform : State → ε → State}
    (hstep : ∀ store states event, holds store states →
      holds (perform store event) (advance inputOf next states event))
    {store : State} (hstore : holds store states) (events : List ε) :
    holds (events.foldl perform store) (folded inputOf next states events) := by
  induction events using List.reverseRecOn with
  | nil => exact hstore
  | append_singleton events event ih =>
      rw [List.foldl_append, List.foldl_cons, List.foldl_nil, folded_concat]
      exact hstep _ _ event ih

end Keyed

end QuantumPlatform.Process
