import QuantumPlatform.Process.Keyed
import QuantumPlatform.Statistics.Deviations
import QuantumPlatform.Stream.Rolling
import Mathlib.Data.List.MinMax
import Mathlib.Algebra.Order.Ring.Rat

namespace QuantumPlatform.Stream

open Process Python Statistics

inductive RollingCall (𝕂 : Type) where
  | addSample (backendName : String) (errorRate : 𝕂)
  | sampleCount (backendName : String)

-- The sample that a call has for a backend.
def RollingCall.sample {𝕂 : Type} (backendName : String) : RollingCall 𝕂 → Option 𝕂
  | .addSample name errorRate => if name = backendName then some errorRate else none
  | .sampleCount _ => none

variable {𝕂 : Type} {windowSize : Nat} (arithmetic : Arithmetic 𝕂)

namespace RollingErrorRate

def perform (rolling : RollingErrorRate 𝕂 windowSize) :
    RollingCall 𝕂 → RollingErrorRate 𝕂 windowSize
  | .addSample backendName errorRate => (rolling.addSample arithmetic backendName errorRate).1
  | .sampleCount backendName => (rolling.sampleCount backendName).1

-- A new window of this size after a series of calls.
def after (windowSize : Nat) (calls : List (RollingCall 𝕂)) : RollingErrorRate 𝕂 windowSize :=
  calls.foldl (perform arithmetic) {}

-- Every backend has the last of these samples, if only by default.
def Holds (rolling : RollingErrorRate 𝕂 windowSize) (samples : String → List 𝕂) : Prop :=
  ∀ backendName, (rolling.samples.get backendName ∅).items = (samples backendName).rtake windowSize

theorem Holds.perform {rolling : RollingErrorRate 𝕂 windowSize} {samples : String → List 𝕂}
    (h : Holds rolling samples) (call : RollingCall 𝕂) :
    Holds (rolling.perform arithmetic call)
      (Keyed.advance RollingCall.sample (fun _ own errorRate => own ++ [errorRate]) samples
        call) := by
  cases call with
  | sampleCount backendName =>
      intro other
      simp only [RollingErrorRate.perform, sampleCount, Dict.get_touch]
      exact h other
  | addSample backendName errorRate =>
      intro other
      simp only [RollingErrorRate.perform, addSample, Dict.get_touch, Dict.get_touch_set]
      rw [Keyed.advance, RollingCall.sample]
      by_cases hname : other = backendName
      · subst hname
        rw [if_pos rfl, if_pos rfl]
        exact Deque.items_append (h other) errorRate
      · rw [if_neg hname, if_neg (Ne.symm hname)]
        exact h other

theorem after_holds (windowSize : Nat) (calls : List (RollingCall 𝕂)) :
    Holds (after arithmetic windowSize calls) fun backendName =>
      Keyed.ownOf RollingCall.sample backendName calls := by
  have hstart : Holds ({} : RollingErrorRate 𝕂 windowSize) fun _ => [] := fun _ => by simp
  have hstep : ∀ (rolling : RollingErrorRate 𝕂 windowSize) samples call, Holds rolling samples →
      Holds (rolling.perform arithmetic call) (Keyed.advance RollingCall.sample
        (fun _ own errorRate => own ++ [errorRate]) samples call) := fun _ _ call h => h.perform arithmetic call
  rw [← Keyed.folded_inputs]
  exact Keyed.foldl_folded hstep hstart calls

theorem addSample_ok {rolling : RollingErrorRate 𝕂 windowSize} {samples : String → List 𝕂}
    (h : Holds rolling samples) (hsize : 1 ≤ windowSize) (backendName : String) (errorRate : 𝕂) :
    let last := (samples backendName ++ [errorRate]).rtake windowSize
    last ≠ [] ∧ (rolling.addSample arithmetic backendName errorRate).2 = .ok (arithmetic.mean last) := by
  have hwindow := Deque.items_append (h backendName) errorRate
  have hne : ((samples backendName ++ [errorRate]).rtake windowSize) ≠ [] := by
    rw [← List.length_pos_iff, List.rtake, List.length_drop, List.length_append]
    simp only [List.length_singleton]
    omega
  refine ⟨hne, ?_⟩
  simp only [addSample, Dict.get_touch, hwindow]
  rw [if_neg (by simpa using hne)]

end RollingErrorRate

section exact

variable [Field 𝕂] [LinearOrder 𝕂]

-- The mean of the values, no further out than they are.
structure ExactMean (values : List 𝕂) (average : 𝕂) : Prop where
  mean : average = values.sum / values.length
  minimum_le : values.minimum ≤ (average : WithTop 𝕂)
  le_maximum : (average : WithBot 𝕂) ≤ values.maximum

theorem exactMean [IsStrictOrderedRing 𝕂] {values : List 𝕂} (hne : values ≠ []) :
    ExactMean values (Arithmetic.exact.mean values) := by
  have hmean : IsMean (Arithmetic.exact.mean values) values := (isMean_iff hne).mpr rfl
  refine ⟨rfl, ?_, ?_⟩
  · obtain ⟨least, hleast⟩ := WithTop.ne_top_iff_exists.mp (List.minimum_ne_top_of_ne_nil hne)
    have hle : ∀ value ∈ values, least ≤ value := fun value hmem =>
      WithTop.coe_le_coe.mp (hleast.trans_le (List.minimum_le_of_mem' hmem))
    rw [← hleast]
    exact WithTop.coe_le_coe.mpr (hmean.le_of_forall_ge hne hle)
  · obtain ⟨greatest, hgreatest⟩ :=
      WithBot.ne_bot_iff_exists.mp (List.maximum_ne_bot_of_ne_nil hne)
    have hle : ∀ value ∈ values, value ≤ greatest := fun value hmem =>
      WithBot.coe_le_coe.mp ((List.le_maximum_of_mem' hmem).trans_eq hgreatest.symm)
    rw [← hgreatest]
    exact WithBot.coe_le_coe.mpr (hmean.le_of_forall_le hne hle)

end exact

-- The next answers for a backend, after any calls, and what the average is of its last samples.
structure RollingLaw (arithmetic : Arithmetic 𝕂) (IsAverage : List 𝕂 → 𝕂 → Prop) (windowSize : Nat)
    (calls : List (RollingCall 𝕂)) (backendName : String) : Prop where
  addSample : ∀ errorRate,
    let own := Keyed.ownOf RollingCall.sample backendName calls ++ [errorRate]
    let last := own.rtake windowSize
    last.length = min own.length windowSize ∧
      ∃ average, ((RollingErrorRate.after arithmetic windowSize calls).addSample arithmetic
          backendName errorRate).2 = .ok average ∧ IsAverage last average
  sampleCount : ((RollingErrorRate.after arithmetic windowSize calls).sampleCount backendName).2 =
    min (Keyed.ownOf RollingCall.sample backendName calls).length windowSize

theorem rollingLaw {IsAverage : List 𝕂 → 𝕂 → Prop} (hsize : 1 ≤ windowSize)
    (haverage : ∀ last, last ≠ [] → IsAverage last (arithmetic.mean last))
    (calls : List (RollingCall 𝕂)) (backendName : String) :
    RollingLaw arithmetic IsAverage windowSize calls backendName := by
  have hholds := RollingErrorRate.after_holds arithmetic windowSize calls
  refine ⟨fun errorRate => ?_, ?_⟩
  · obtain ⟨hne, hanswer⟩ :=
      RollingErrorRate.addSample_ok arithmetic hholds hsize backendName errorRate
    exact ⟨by rw [List.rtake, List.length_drop]; omega, _, hanswer, haverage _ hne⟩
  · simp only [RollingErrorRate.sampleCount, Dict.get_touch, hholds backendName]
    rw [List.rtake, List.length_drop]
    omega

-- In floats three samples of 0.05 add up to 0.15000000000000002.
theorem mean_above_samples : ∃ average,
    ((RollingErrorRate.after .float 3 [.addSample "aer" 0.05, .addSample "aer" 0.05]).addSample
      .float "aer" 0.05).2 = .ok average ∧
      ∀ sample ∈ ([0.05, 0.05, 0.05] : List Float), sample < average :=
  ⟨0.05000000000000001, by decide +kernel, by decide +kernel⟩

-- Whatever the arithmetic, the last samples are averaged in it; an exact one has their mean,
-- one that rounds is off it by at most the roundings of the sum and of the division.
theorem rolling_window (windowSize : Nat) (hsize : 1 ≤ windowSize) :
    (∀ (𝕂 : Type) (arithmetic : Arithmetic 𝕂) (calls : List (RollingCall 𝕂)) (backendName : String),
      RollingLaw arithmetic (fun last average => average = arithmetic.mean last) windowSize calls
        backendName) ∧
    (∀ (𝕂 : Type) [Field 𝕂] [LinearOrder 𝕂] [IsStrictOrderedRing 𝕂] (calls : List (RollingCall 𝕂))
      (backendName : String), RollingLaw .exact ExactMean windowSize calls backendName) ∧
    ∀ (𝕂 : Type) [Field 𝕂] [LinearOrder 𝕂] [IsStrictOrderedRing 𝕂] (round : 𝕂 → 𝕂) (unit : 𝕂),
      (∀ value, |round value - value| ≤ unit * |value|) →
        ∀ (calls : List (RollingCall 𝕂)) (backendName : String),
          RollingLaw (.rounded round) (fun last average =>
            |average - Arithmetic.exact.mean last| ≤
              ((1 + unit) ^ (last.length + 1) - 1) * Arithmetic.exact.mean (last.map abs))
            windowSize calls backendName := by
  refine ⟨?_, ?_, ?_⟩
  · intro 𝕂 arithmetic
    exact rollingLaw arithmetic hsize fun _ _ => rfl
  · intro 𝕂 _ _ _
    exact rollingLaw .exact hsize fun _ hne => exactMean hne
  · intro 𝕂 _ _ _ round unit hround
    exact rollingLaw (.rounded round) hsize fun last _ =>
      Arithmetic.rounded_mean_error hround last

theorem rolling_window_evicts :
    RollingLaw .float (fun last average => average = Arithmetic.float.mean last) 3
        [.addSample "aer" 0, .sampleCount "ibm", .addSample "aer" 0.02, .addSample "ibm" 1,
          .addSample "aer" 0.1] "aer" ∧
      RollingLaw .exact ExactMean 3
        ([.addSample "aer" 0, .sampleCount "ibm", .addSample "aer" (1 / 50), .addSample "ibm" 1,
          .addSample "aer" (1 / 10)] : List (RollingCall ℚ)) "aer" ∧
      RollingLaw (.rounded fun value : ℚ => value - value / 1024) (fun last average =>
          |average - Arithmetic.exact.mean last| ≤
            ((1 + 1 / 1024) ^ (last.length + 1) - 1) * Arithmetic.exact.mean (last.map abs))
        3 [.addSample "aer" (1 / 20), .addSample "ibm" 1, .addSample "aer" (1 / 20)] "aer" := by
  have hround : ∀ value : ℚ, |value - value / 1024 - value| ≤ 1 / 1024 * |value| := by
    intro value
    rw [show value - value / 1024 - value = -(1 / 1024 * value) by ring, abs_neg, abs_mul]
    norm_num
  exact ⟨(rolling_window 3 (by decide)).1 Float .float _ "aer",
    (rolling_window 3 (by decide)).2.1 ℚ _ "aer",
    (rolling_window 3 (by decide)).2.2 ℚ _ _ hround _ "aer"⟩

end QuantumPlatform.Stream
