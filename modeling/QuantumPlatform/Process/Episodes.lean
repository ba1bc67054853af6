import QuantumPlatform.Process.Monitor

namespace QuantumPlatform.Process

namespace Monitor

variable {sig : Signature} {State α : Type}

-- A monitor for programs that do one thing after another: it keeps one state for each
-- episode, and only the last one moves. `opens` says which answers begin an episode.
def episodes (monitor : Monitor sig State) (fresh : State)
    (opens : (op : sig.Op) → sig.Ans op → Bool) : Monitor sig (List State) where
  allowed states op := ∀ last ∈ states.getLast?,
    (∀ answer, opens op answer = false) → monitor.allowed last op
  admits states op answer := opens op answer = false →
    ∀ last ∈ states.getLast?, monitor.admits last op answer
  next states op answer :=
    if opens op answer then states ++ [fresh]
    else match states.getLast? with
      | none => states
      | some last => states.dropLast ++ [monitor.next last op answer]

variable {monitor : Monitor sig State} {fresh : State}
  {opens : (op : sig.Op) → sig.Ans op → Bool} {past : List State} {state : State}

theorem episodes_next {op : sig.Op} {answer : sig.Ans op} (h : opens op answer = false) :
    (monitor.episodes fresh opens).next (past ++ [state]) op answer =
      past ++ [monitor.next state op answer] := by
  simp [episodes, h]

-- Outside the episodes, an answer that their monitor ignores changes nothing.
theorem episodes_ignores {op : sig.Op} {answer : sig.Ans op} (h : opens op answer = false)
    (hignored : ∀ last, monitor.next last op answer = last) (states : List State) :
    (monitor.episodes fresh opens).next states op answer = states := by
  rcases List.eq_nil_or_concat' states with rfl | ⟨past, last, rfl⟩
  · simp [episodes, h]
  · rw [episodes_next h, hignored]

-- Within an episode, only its own state matters.
theorem Obeys.episodes {post : State → α → Prop} {program : Program sig α}
    (h : monitor.Obeys post state program)
    (honly : program.Only fun op => ∀ answer, opens op answer = false) (past : List State) :
    (monitor.episodes fresh opens).Obeys
      (fun states value => ∃ last, states = past ++ [last] ∧ post last value)
      (past ++ [state]) program := by
  induction program generalizing state with
  | ret value => exact ⟨state, rfl, h⟩
  | call op next ih =>
      refine ⟨?_, fun answer hadmits => ?_⟩
      · intro last hlast _
        obtain rfl : state = last := by simpa using hlast
        exact h.1
      · have hcloses : opens op answer = false := honly.1 answer
        have hadmitted : monitor.admits state op answer := hadmits hcloses state (by simp)
        rw [episodes_next hcloses]
        exact ih answer (h.2 answer hadmitted) (honly.2 answer)

end Monitor

end QuantumPlatform.Process
