import QuantumPlatform.Stream.Alerting.Lemmas
import Mathlib.Data.List.Chain
import Mathlib.Data.List.Infix

namespace QuantumPlatform.Stream

variable {𝕂 : Type} [LinearOrder 𝕂] (settings : Hysteresis 𝕂) (backendName : String)

-- What each sample of a series led to.
def transitions (values : List 𝕂) : List (Option (AlertTransition 𝕂)) :=
  (values.foldl (fun (state, emitted) value =>
    let (next, transition) := step settings backendName state value
    (next, emitted ++ [transition])) (({}, []) : AlertState × List (Option (AlertTransition 𝕂)))).2

-- The transitions of a series with their places in it.
def emissions (values : List 𝕂) : List (AlertTransition 𝕂 × ℕ) :=
  (transitions settings backendName values).zipIdx.filterMap fun entry =>
    entry.1.map fun transition => (transition, entry.2)

def trailingBreaches (values : List 𝕂) : ℕ :=
  (values.rtakeWhile fun value => decide (settings.threshold < value)).length

def trailingOk (values : List 𝕂) : ℕ :=
  (values.rtakeWhile fun value => decide (value ≤ settings.threshold)).length

-- The kind of the run that is completed or continued at the end of a series.
def place (values : List 𝕂) : Option AlertLevel :=
  if settings.breachStreak ≤ trailingBreaches settings values then some .ALERT
  else if settings.recoveryStreak ≤ trailingOk settings values then some .OK
  else none

def places (values : List 𝕂) : List AlertLevel := values.inits.filterMap (place settings)

structure TraceLaw (values : List 𝕂) : Prop where
  breaches : (steps settings backendName values).consecutiveBreaches =
    trailingBreaches settings values
  ok : (steps settings backendName values).consecutiveOk = trailingOk settings values
  level : (steps settings backendName values).level = .ALERT ↔
    (places settings values).getLast? = some .ALERT
  emitted : ∀ seen value rest, values = seen ++ value :: rest →
    let before := (steps settings backendName seen).level
    let after := (steps settings backendName (seen ++ [value])).level
    (transitions settings backendName values)[seen.length]? =
      some (if after = before then none else some ⟨backendName, after, value, settings.threshold⟩)
  starts : ∀ first ∈ (emissions settings backendName values).head?, first.1.level = .ALERT
  alternate : (emissions settings backendName values).IsChain fun first second =>
    first.1.level ≠ second.1.level
  apart : (emissions settings backendName values).IsChain fun first second =>
    first.2 + min settings.breachStreak settings.recoveryStreak ≤ second.2

variable {settings backendName} {state : AlertState} {value : 𝕂}

section step

-- A transition is made exactly when the level changes.
theorem step_emitted : (step settings backendName state value).2 =
    if (step settings backendName state value).1.level = state.level then none
    else some ⟨backendName, (step settings backendName state value).1.level, value,
      settings.threshold⟩ := by
  by_cases hbreach : settings.threshold < value
  · simp only [step, if_pos hbreach]
    by_cases halert : state.level = .OK ∧ settings.breachStreak ≤ state.consecutiveBreaches + 1
    · simp [halert]
    · simp [halert]
  · simp only [step, if_neg hbreach]
    by_cases hclear : state.level = .ALERT ∧ settings.recoveryStreak ≤ state.consecutiveOk + 1
    · simp [hclear]
    · simp [hclear]

theorem step_level_breach (h : settings.threshold < value) :
    (step settings backendName state value).1.level =
      if settings.breachStreak ≤ state.consecutiveBreaches + 1 then .ALERT else state.level := by
  simp only [step, if_pos h]
  cases state.level with
  | OK => split_ifs <;> simp_all
  | ALERT => simp

theorem step_level_ok (h : ¬ settings.threshold < value) :
    (step settings backendName state value).1.level =
      if settings.recoveryStreak ≤ state.consecutiveOk + 1 then .OK else state.level := by
  simp only [step, if_neg h]
  cases state.level with
  | OK => simp
  | ALERT => split_ifs <;> simp_all

end step

section counters

variable {values : List 𝕂}

theorem trailingBreaches_concat : trailingBreaches settings (values ++ [value]) =
    if settings.threshold < value then trailingBreaches settings values + 1 else 0 := by
  unfold trailingBreaches
  by_cases h : settings.threshold < value
  · rw [if_pos h, List.rtakeWhile_concat_pos _ _ _ (by simpa using h)]
    simp
  · rw [if_neg h, List.rtakeWhile_concat_neg _ _ _ (by simpa using h)]
    rfl

theorem trailingOk_concat : trailingOk settings (values ++ [value]) =
    if settings.threshold < value then 0 else trailingOk settings values + 1 := by
  unfold trailingOk
  by_cases h : settings.threshold < value
  · rw [if_pos h, List.rtakeWhile_concat_neg _ _ _ (by simpa using h)]
    rfl
  · rw [if_neg h, List.rtakeWhile_concat_pos _ _ _ (by simpa using h)]
    simp

theorem steps_consecutiveBreaches (values : List 𝕂) :
    (steps settings backendName values).consecutiveBreaches = trailingBreaches settings values := by
  induction values using List.reverseRecOn with
  | nil => rfl
  | append_singleton values value ih =>
      rw [steps_concat, trailingBreaches_concat]
      by_cases h : settings.threshold < value
      · rw [(step_breach h).1, if_pos h, ih]
      · rw [(step_ok h).1, if_neg h]

end counters

section level

variable (hbreach : 1 ≤ settings.breachStreak) (hrecovery : 1 ≤ settings.recoveryStreak)

include hbreach hrecovery

-- The level is that of the place a series ends with, if it is one.
theorem steps_level_concat (values : List 𝕂) (value : 𝕂) :
    (steps settings backendName (values ++ [value])).level =
      (place settings (values ++ [value])).getD (steps settings backendName values).level := by
  rw [steps_concat, place, trailingBreaches_concat, trailingOk_concat]
  by_cases h : settings.threshold < value
  · rw [step_level_breach h, steps_consecutiveBreaches, if_pos h, if_pos h,
      if_neg (by omega : ¬ settings.recoveryStreak ≤ 0)]
    split_ifs
    · rfl
    · rfl
  · have hcount : trailingOk settings values =
        (steps settings backendName values).consecutiveOk := (steps_consecutiveOk values).symm
    rw [step_level_ok h, ← hcount, if_neg h, if_neg h,
      if_neg (by omega : ¬ settings.breachStreak ≤ 0)]
    split_ifs
    · rfl
    · rfl

theorem steps_level (values : List 𝕂) : (steps settings backendName values).level =
    (places settings values).getLast?.getD .OK := by
  induction values using List.reverseRecOn with
  | nil =>
      have hnone : place settings ([] : List 𝕂) = none := by
        have hbreaches : ¬ settings.breachStreak ≤ trailingBreaches settings ([] : List 𝕂) :=
          Nat.not_le.mpr hbreach
        have hok : ¬ settings.recoveryStreak ≤ trailingOk settings ([] : List 𝕂) :=
          Nat.not_le.mpr hrecovery
        rw [place, if_neg hbreaches, if_neg hok]
      simp [places, hnone]
  | append_singleton values value ih =>
      have hplaces : places settings (values ++ [value]) =
          places settings values ++ (place settings (values ++ [value])).toList := by
        unfold places
        rw [List.inits_append, List.filterMap_append]
        cases hplace : place settings (values ++ [value]) with
        | none => simp [hplace]
        | some level => simp [hplace]
      rw [steps_level_concat hbreach hrecovery, ih, hplaces]
      cases place settings (values ++ [value]) with
      | none => simp
      | some level => simp

end level

section emissions

variable {values : List 𝕂}

theorem transitions_concat (values : List 𝕂) (value : 𝕂) :
    transitions settings backendName (values ++ [value]) =
      transitions settings backendName values ++
        [(step settings backendName (steps settings backendName values) value).2] := by
  have hfold : ∀ values : List 𝕂, (values.foldl (fun (state, emitted) value =>
      let (next, transition) := step settings backendName state value
      (next, emitted ++ [transition]))
        (({}, []) : AlertState × List (Option (AlertTransition 𝕂)))).1 =
      steps settings backendName values := by
    intro values
    induction values using List.reverseRecOn with
    | nil => rfl
    | append_singleton values value ih =>
        rw [List.foldl_concat, steps_concat, ← ih]
  unfold transitions
  rw [List.foldl_concat, ← hfold]

@[simp] theorem length_transitions (values : List 𝕂) :
    (transitions settings backendName values).length = values.length := by
  induction values using List.reverseRecOn with
  | nil => rfl
  | append_singleton values value ih => rw [transitions_concat]; simp [ih]

theorem emissions_concat (values : List 𝕂) (value : 𝕂) :
    emissions settings backendName (values ++ [value]) =
      emissions settings backendName values ++
        ((step settings backendName (steps settings backendName values) value).2.map
          fun transition => (transition, values.length)).toList := by
  unfold emissions
  rw [transitions_concat, List.zipIdx_append, List.filterMap_append, length_transitions]
  cases (step settings backendName (steps settings backendName values) value).2 with
  | none => simp
  | some transition => simp

-- How the last transition and the samples after it go with the level.
structure Marked (settings : Hysteresis 𝕂) (backendName : String) (values : List 𝕂) : Prop where
  level : (steps settings backendName values).level =
    ((emissions settings backendName values).getLast?.map fun last => last.1.level).getD .OK
  alert : ∀ last ∈ (emissions settings backendName values).getLast?,
    last.1.level = .ALERT → last.2 + trailingOk settings values < values.length
  cleared : ∀ last ∈ (emissions settings backendName values).getLast?,
    last.1.level = .OK → last.2 + trailingBreaches settings values < values.length
  starts : ∀ first ∈ (emissions settings backendName values).head?, first.1.level = .ALERT
  alternate : (emissions settings backendName values).IsChain fun first second =>
    first.1.level ≠ second.1.level
  apart : (emissions settings backendName values).IsChain fun first second =>
    first.2 + min settings.breachStreak settings.recoveryStreak ≤ second.2

theorem Marked.nil : Marked settings backendName [] where
  level := rfl
  alert _ h := nomatch h
  cleared _ h := nomatch h
  starts _ h := nomatch h
  alternate := .nil
  apart := .nil

-- A sample without a transition.
theorem Marked.quiet (h : Marked settings backendName values)
    (hnone : (step settings backendName (steps settings backendName values) value).2 = none) :
    Marked settings backendName (values ++ [value]) := by
  have hemissions : emissions settings backendName (values ++ [value]) =
      emissions settings backendName values := by
    rw [emissions_concat, hnone]
    simp
  have hsame : (steps settings backendName (values ++ [value])).level =
      (steps settings backendName values).level := by
    rw [step_emitted] at hnone
    rw [steps_concat]
    by_contra hne
    rw [if_neg hne] at hnone
    cases hnone
  constructor
  · rw [hsame, hemissions, h.level]
  · rw [hemissions, trailingOk_concat, List.length_append]
    intro last hlast hlevel
    have hbefore := h.alert last hlast hlevel
    split_ifs
    · simp only [List.length_singleton]
      omega
    · simp only [List.length_singleton]
      omega
  · rw [hemissions, trailingBreaches_concat, List.length_append]
    intro last hlast hlevel
    have hbefore := h.cleared last hlast hlevel
    split_ifs
    · simp only [List.length_singleton]
      omega
    · simp only [List.length_singleton]
      omega
  · rw [hemissions]
    exact h.starts
  · rw [hemissions]
    exact h.alternate
  · rw [hemissions]
    exact h.apart

theorem Marked.last_level (h : Marked settings backendName values)
    {last : AlertTransition 𝕂 × ℕ}
    (hlast : last ∈ (emissions settings backendName values).getLast?) :
    last.1.level = (steps settings backendName values).level := by
  rw [h.level, Option.mem_def.mp hlast]
  rfl

-- The last transition lies before the run that this one completes.
theorem Marked.distance (h : Marked settings backendName values) {transition : AlertTransition 𝕂}
    (hsome : (step settings backendName (steps settings backendName values) value).2 =
      some transition) {last : AlertTransition 𝕂 × ℕ}
    (hlast : last ∈ (emissions settings backendName values).getLast?) :
    last.1.level ≠ transition.level ∧
      last.2 + min settings.breachStreak settings.recoveryStreak ≤ values.length := by
  rw [h.last_level hlast]
  rcases step_transition hsome with ⟨rfl, hvalue, hlevel, hstreak⟩ | ⟨rfl, hvalue, hlevel, hstreak⟩
  · have hbefore := h.cleared last hlast ((h.last_level hlast).trans hlevel)
    rw [steps_consecutiveBreaches] at hstreak
    refine ⟨?_, ?_⟩
    · rw [hlevel]
      exact nofun
    · have hmin := min_le_left settings.breachStreak settings.recoveryStreak
      omega
  · have hbefore := h.alert last hlast ((h.last_level hlast).trans hlevel)
    have hcount : (steps settings backendName values).consecutiveOk =
        trailingOk settings values := steps_consecutiveOk values
    rw [hcount] at hstreak
    refine ⟨?_, ?_⟩
    · rw [hlevel]
      exact nofun
    · have hmin := min_le_right settings.breachStreak settings.recoveryStreak
      omega

-- The first transition raises an alert: before it the level is that of the start.
theorem Marked.starts_concat (h : Marked settings backendName values)
    {transition : AlertTransition 𝕂}
    (hsome : (step settings backendName (steps settings backendName values) value).2 =
      some transition) :
    ∀ first ∈ (emissions settings backendName values ++ [(transition, values.length)]).head?,
      first.1.level = .ALERT := by
  intro first hfirst
  cases hbefore : emissions settings backendName values with
  | nil =>
      rw [hbefore] at hfirst
      obtain rfl := Option.mem_some_iff.mp hfirst
      have hok : (steps settings backendName values).level = .OK := by
        rw [h.level, hbefore]
        rfl
      rcases step_transition hsome with ⟨rfl, -⟩ | ⟨rfl, -, halert, -⟩
      · rfl
      · rw [hok] at halert
        cases halert
  | cons head rest =>
      rw [hbefore] at hfirst
      obtain rfl := Option.mem_some_iff.mp hfirst
      exact h.starts _ (by rw [hbefore]; rfl)

theorem Marked.emits (h : Marked settings backendName values) {transition : AlertTransition 𝕂}
    (hsome : (step settings backendName (steps settings backendName values) value).2 =
      some transition) : Marked settings backendName (values ++ [value]) := by
  have hemissions : emissions settings backendName (values ++ [value]) =
      emissions settings backendName values ++ [(transition, values.length)] := by
    rw [emissions_concat, hsome]
    rfl
  have hlevel : (steps settings backendName (values ++ [value])).level = transition.level := by
    rw [step_emitted] at hsome
    rw [steps_concat]
    split_ifs at hsome
    exact congrArg AlertTransition.level (Option.some.inj hsome)
  constructor
  · rw [hlevel, hemissions, List.getLast?_concat]
    rfl
  · rw [hemissions, List.getLast?_concat, trailingOk_concat, List.length_append]
    rintro last hlast halert
    obtain rfl := Option.mem_some_iff.mp hlast
    rcases step_transition hsome with ⟨rfl, hvalue, -⟩ | ⟨rfl, -⟩
    · rw [if_pos hvalue]
      simp
    · cases halert
  · rw [hemissions, List.getLast?_concat, trailingBreaches_concat, List.length_append]
    rintro last hlast hclear
    obtain rfl := Option.mem_some_iff.mp hlast
    rcases step_transition hsome with ⟨rfl, -⟩ | ⟨rfl, hvalue, -⟩
    · cases hclear
    · rw [if_neg (not_lt.mpr hvalue)]
      simp
  · rw [hemissions]
    exact h.starts_concat hsome
  · rw [hemissions]
    refine h.alternate.append (.singleton _) fun last hlast next hnext => ?_
    obtain rfl := Option.mem_some_iff.mp hnext
    exact (h.distance hsome hlast).1
  · rw [hemissions]
    refine h.apart.append (.singleton _) fun last hlast next hnext => ?_
    obtain rfl := Option.mem_some_iff.mp hnext
    exact (h.distance hsome hlast).2

theorem marked (values : List 𝕂) : Marked settings backendName values := by
  induction values using List.reverseRecOn with
  | nil => exact .nil
  | append_singleton values value ih =>
      cases hstep : (step settings backendName (steps settings backendName values) value).2 with
      | none => exact ih.quiet hstep
      | some transition => exact ih.emits hstep

theorem transitions_get (seen : List 𝕂) (value : 𝕂) (rest : List 𝕂) :
    (transitions settings backendName (seen ++ value :: rest))[seen.length]? =
      some (step settings backendName (steps settings backendName seen) value).2 := by
  induction rest using List.reverseRecOn with
  | nil =>
      rw [transitions_concat, List.getElem?_append_right (by simp)]
      simp
  | append_singleton rest last ih =>
      have hsplit : seen ++ value :: (rest ++ [last]) = (seen ++ value :: rest) ++ [last] := by simp
      rw [hsplit, transitions_concat, List.getElem?_append_left (by simp), ih]

end emissions

-- The hysteresis as a law about whole series of samples.
theorem hysteresis_traceLaw (settings : Hysteresis 𝕂) (hbreach : 1 ≤ settings.breachStreak)
    (hrecovery : 1 ≤ settings.recoveryStreak) (backendName : String) (values : List 𝕂) :
    TraceLaw settings backendName values where
  breaches := steps_consecutiveBreaches values
  ok := steps_consecutiveOk values
  level := by
    rw [steps_level hbreach hrecovery]
    cases (places settings values).getLast? with
    | none => exact iff_of_false nofun nofun
    | some level => simp
  emitted := by
    rintro seen value rest rfl before after
    rw [transitions_get, step_emitted, ← steps_concat]
  starts := (marked values).starts
  alternate := (marked values).alternate
  apart := (marked values).apart

-- Two breaches raise the alert, and one sample at the threshold clears it.
theorem hysteresis_traceLaw_cleared :
    TraceLaw (⟨5, 2, 1⟩ : Hysteresis ℤ) "aer" [6, 7, 5] ∧
      (steps (⟨5, 2, 1⟩ : Hysteresis ℤ) "aer" [6, 7, 5]).level = .OK :=
  ⟨hysteresis_traceLaw _ (by decide) (by decide) _ _, by decide⟩

end QuantumPlatform.Stream
