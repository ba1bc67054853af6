import QuantumPlatform.Stream.Alerting
import Mathlib.Data.List.DropRight

namespace QuantumPlatform.Stream

section trailing

variable {α β : Type}

theorem rtakeWhile_map_length (f : α → β) (p : β → Bool) (items : List α) :
    ((items.map f).rtakeWhile p).length =
      (items.rtakeWhile fun item => p (f item)).length := by
  induction items using List.reverseRecOn with
  | nil => simp
  | append_singleton items item ih =>
      rw [List.map_append, List.map_cons, List.map_nil, List.rtakeWhile_concat,
        List.rtakeWhile_concat]
      by_cases h : p (f item)
      · simp [h, ih]
      · simp [h]

-- As many items as asked for, out of the run at the end.
theorem exists_streak {p : α → Bool} {items : List α} {count : Nat}
    (h : count ≤ (items.rtakeWhile p).length) :
    ∃ streak, streak <:+ items ∧ streak.length = count ∧ ∀ item ∈ streak, p item = true := by
  let run := items.rtakeWhile p
  refine ⟨run.drop (run.length - count), ?_, ?_, ?_⟩
  · exact (List.drop_suffix _ _).trans (List.rtakeWhile_suffix _ _)
  · rw [List.length_drop, Nat.sub_sub_self h]
  · intro item hmem
    exact List.mem_rtakeWhile_imp (List.mem_of_mem_drop hmem)

end trailing

variable {𝕂 : Type} [LinearOrder 𝕂]

-- The state after a series of samples of one backend.
def steps (settings : Hysteresis 𝕂) (backendName : String) (values : List 𝕂) : AlertState :=
  values.foldl (fun state value => (step settings backendName state value).1) {}

variable (settings : Hysteresis 𝕂) (backendName : String)

@[simp] theorem steps_nil : steps settings backendName [] = {} := rfl

theorem steps_concat (values : List 𝕂) (value : 𝕂) :
    steps settings backendName (values ++ [value]) =
      (step settings backendName (steps settings backendName values) value).1 := by
  simp only [steps, List.foldl_concat]

section counters

variable {settings backendName} {state : AlertState} {value : 𝕂}

theorem step_breach (h : settings.threshold < value) :
    (step settings backendName state value).1.consecutiveBreaches =
        state.consecutiveBreaches + 1 ∧
      (step settings backendName state value).1.consecutiveOk = 0 := by
  simp only [step, h, if_true]
  split_ifs <;> exact ⟨rfl, rfl⟩

theorem step_ok (h : ¬settings.threshold < value) :
    (step settings backendName state value).1.consecutiveBreaches = 0 ∧
      (step settings backendName state value).1.consecutiveOk = state.consecutiveOk + 1 := by
  simp only [step, h, if_false]
  split_ifs <;> exact ⟨rfl, rfl⟩

-- Both counters count samples at the end of the series: one of the two is 0.
theorem steps_consecutiveOk (values : List 𝕂) :
    (steps settings backendName values).consecutiveOk =
      (values.rtakeWhile fun value => decide (value ≤ settings.threshold)).length := by
  induction values using List.reverseRecOn with
  | nil => simp
  | append_singleton values value ih =>
      rw [steps_concat]
      by_cases h : settings.threshold < value
      · rw [(step_breach h).2, List.rtakeWhile_concat_neg _ _ _ (by simpa using h)]
        rfl
      · rw [(step_ok h).2, ih, List.rtakeWhile_concat_pos _ _ _ (by simpa using h)]
        simp

-- What a transition says about the sample and the state it came in.
theorem step_transition {transition : AlertTransition 𝕂}
    (h : (step settings backendName state value).2 = some transition) :
    transition = ⟨backendName, .ALERT, value, settings.threshold⟩ ∧
        settings.threshold < value ∧ state.level = .OK ∧
        settings.breachStreak ≤ state.consecutiveBreaches + 1 ∨
      transition = ⟨backendName, .OK, value, settings.threshold⟩ ∧
        value ≤ settings.threshold ∧ state.level = .ALERT ∧
        settings.recoveryStreak ≤ state.consecutiveOk + 1 := by
  by_cases hbreach : settings.threshold < value
  · simp only [step, hbreach, if_true] at h
    split_ifs at h with halert
    · exact .inl ⟨(Option.some.inj h).symm, hbreach, halert.1, halert.2⟩
  · simp only [step, hbreach, if_false] at h
    split_ifs at h with hclear
    · exact .inr ⟨(Option.some.inj h).symm, not_lt.mp hbreach, hclear.1, hclear.2⟩

end counters

end QuantumPlatform.Stream
