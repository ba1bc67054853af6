import Mathlib.Algebra.BigOperators.Group.List.Basic
import Mathlib.Algebra.GroupWithZero.Nat
import Mathlib.Data.List.Induction
import Mathlib.Data.Multiset.ZeroCons

namespace QuantumPlatform.Process

variable {State Label : Type}

-- A finite run of a labelled transition system, with the labels of its steps in order.
inductive Run (step : State → Label → State → Prop) (start : State) :
    List Label → State → Prop where
  | start : Run step start [] start
  | step {labels : List Label} {state next : State} {label : Label}
      (run : Run step start labels state) (last : step state label next) :
      Run step start (labels ++ [label]) next

-- The same steps, labelled with the states before and after them as well.
def Traced (step : State → Label → State → Prop) (state : State)
    (transition : State × Label × State) (next : State) : Prop :=
  transition.1 = state ∧ transition.2.2 = next ∧ step state transition.2.1 next

theorem Traced.of_step {step : State → Label → State → Prop} {state next : State} {label : Label}
    (h : step state label next) : Traced step state (state, label, next) next :=
  ⟨rfl, rfl, h⟩

namespace Run

variable {step : State → Label → State → Prop} {start state next : State} {labels : List Label}

theorem single {label : Label} (h : step start label next) : Run step start [label] next :=
  .step .start h

theorem append {more : List Label} (first : Run step start labels state)
    (second : Run step state more next) : Run step start (labels ++ more) next := by
  induction second with
  | start => simpa using first
  | step _ last ih =>
      rw [← List.append_assoc]
      exact .step ih last

theorem cons {label : Label} (h : step start label state) (rest : Run step state labels next) :
    Run step start (label :: labels) next :=
  (single h).append rest

theorem last_step {label : Label} (run : Run step start (labels ++ [label]) next) :
    ∃ state, Run step start labels state ∧ step state label next := by
  generalize hall : labels ++ [label] = all at run
  cases run with
  | start => exact absurd hall (by simp)
  | step run last =>
      obtain ⟨rfl, hlabel⟩ := List.append_inj' hall rfl
      obtain rfl := List.singleton_inj.mp hlabel
      exact ⟨_, run, last⟩

-- What comes first in a run is a run.
theorem of_append {more : List Label} (run : Run step start (labels ++ more) next) :
    ∃ state, Run step start labels state := by
  induction more using List.reverseRecOn generalizing next with
  | nil => exact ⟨next, by simpa using run⟩
  | append_singleton more label ih =>
      rw [← List.append_assoc] at run
      obtain ⟨state, run, -⟩ := run.last_step
      exact ih run

-- Each transition of a traced run is a step from the state that the run has
-- reached there.
theorem traced_split {before after : List (State × Label × State)}
    {transition : State × Label × State}
    (run : Run (Traced step) start (before ++ transition :: after) next) :
    Run (Traced step) start before transition.1 ∧
      step transition.1 transition.2.1 transition.2.2 ∧
      Run (Traced step) start (before ++ [transition]) transition.2.2 := by
  rw [← List.singleton_append, ← List.append_assoc] at run
  obtain ⟨state, run⟩ := run.of_append
  obtain ⟨middle, first, last⟩ := run.last_step
  obtain ⟨before, label, after⟩ := transition
  obtain ⟨rfl, rfl, hstep⟩ := last
  exact ⟨first, hstep, run⟩

theorem traced_step {transitions : List (State × Label × State)}
    (run : Run (Traced step) start transitions next) :
    ∀ transition ∈ transitions, step transition.1 transition.2.1 transition.2.2 := by
  intro transition hmem
  obtain ⟨before, after, rfl⟩ := List.append_of_mem hmem
  exact (traced_split run).2.1

-- Every run can be traced.
theorem traced (run : Run step start labels next) :
    ∃ transitions, Run (Traced step) start transitions next ∧
      transitions.map (fun transition => transition.2.1) = labels := by
  induction run with
  | start => exact ⟨[], .start, rfl⟩
  | step run last ih =>
      obtain ⟨transitions, traced, rfl⟩ := ih
      exact ⟨_, traced.step (.of_step last), by simp⟩

-- An invariant of the steps whose labels satisfy `good` holds after every run
-- that takes only such steps.
theorem invariant {good : Label → Prop} {inv : State → Prop}
    (hstep : ∀ state label next, inv state → good label → step state label next → inv next)
    (run : Run step start labels state) (hgood : ∀ label ∈ labels, good label)
    (hstart : inv start) : inv state := by
  induction run with
  | start => exact hstart
  | step _ last ih =>
      refine hstep _ _ _ (ih fun label hl => hgood label (by simp [hl])) (hgood _ (by simp)) last

-- Every step of a run starts in a state that the invariant holds of.
theorem steps {good : Label → Prop} {inv : State → Prop} {prop : Label → Prop}
    (hstep : ∀ state label next, inv state → good label → step state label next → inv next)
    (hlabel : ∀ state label next, inv state → step state label next → prop label)
    (run : Run step start labels state) (hgood : ∀ label ∈ labels, good label)
    (hstart : inv start) : ∀ label ∈ labels, prop label := by
  induction run with
  | start => simp
  | @step labels _ _ _ run last ih =>
      have hprefix : ∀ label ∈ labels, good label := fun label hl => hgood label (by simp [hl])
      intro label hl
      rcases List.mem_append.mp hl with hl | hl
      · exact ih hprefix label hl
      · obtain rfl := List.mem_singleton.mp hl
        exact hlabel _ _ _ (invariant hstep run hprefix hstart) last

-- A potential that pays for every step bounds what a whole run can cost.
theorem potential {good : Label → Prop} {inv : State → Prop} {cost : Label → Nat}
    {credit : State → Nat}
    (hstep : ∀ state label next, inv state → good label → step state label next → inv next)
    (hpay : ∀ state label next, inv state → good label → step state label next →
      credit next + cost label ≤ credit state)
    (run : Run step start labels state) (hgood : ∀ label ∈ labels, good label)
    (hstart : inv start) : credit state + (labels.map cost).sum ≤ credit start := by
  induction run with
  | start => simp
  | @step labels _ _ _ run last ih =>
      have hprefix : ∀ label ∈ labels, good label := fun label hl => hgood label (by simp [hl])
      have hpaid := hpay _ _ _ (invariant hstep run hprefix hstart) (hgood _ (by simp)) last
      have hrest := ih hprefix
      simp only [List.map_append, List.map_cons, List.map_nil, List.sum_append, List.sum_cons,
        List.sum_nil]
      omega

end Run

-- A pool of running calls, one of which takes the next step.
section pool

variable {α : Type} {all others : Multiset α} {head member : α}

theorem head_mem (h : all = head ::ₘ others) : head ∈ all := by
  rw [h]
  exact Multiset.mem_cons_self _ _

theorem others_mem (h : all = head ::ₘ others) (hmem : member ∈ others) : member ∈ all := by
  rw [h]
  exact Multiset.mem_cons_of_mem hmem

end pool

end QuantumPlatform.Process
