import QuantumPlatform.Orchestrator.Breaker
import Mathlib.Data.List.Induction
import Mathlib.Tactic.Linarith

namespace QuantumPlatform.Orchestrator

open Process

namespace History

variable {history : History} {now later : ℚ} {access : Access}

theorem failures_append (history : History) (now : ℚ) (access : Access) :
    failures (history ++ [(now, access)]) = match access with
      | .success => []
      | .failure => history.failures ++ [now]
      | .check => history.failures := by
  unfold failures
  rw [List.foldl_append]
  rfl

theorem ordered_append (history : History) (now : ℚ) (access : Access) :
    Ordered (history ++ [(now, access)]) ↔ history.Ordered ∧ ∀ entry ∈ history, entry.1 ≤ now := by
  simp only [Ordered, List.map_append, List.map_cons, List.map_nil, List.pairwise_append,
    List.pairwise_singleton, List.mem_singleton, List.mem_map, forall_exists_index, and_imp,
    forall_apply_eq_imp_iff₂, forall_eq, true_and]

-- A check does not count as a failure, wherever it stands.
theorem failures_unchecked (history : History) : history.unchecked.failures = history.failures := by
  induction history using List.reverseRecOn with
  | nil => rfl
  | append_singleton history entry ih =>
      obtain ⟨now, access⟩ := entry
      have hsplit : unchecked (history ++ [(now, access)]) =
          unchecked history ++ unchecked [(now, access)] := List.filter_append _ _
      rw [failures_append, hsplit]
      cases access with
      | success =>
          have hkept : unchecked [(now, .success)] = [(now, .success)] := rfl
          rw [hkept, failures_append]
      | failure =>
          have hkept : unchecked [(now, .failure)] = [(now, .failure)] := rfl
          rw [hkept, failures_append]
          simp only [ih]
      | check =>
          have hdropped : unchecked [(now, .check)] = [] := rfl
          rw [hdropped, List.append_nil, ih]

theorem Ordered.unchecked (hordered : history.Ordered) : history.unchecked.Ordered :=
  hordered.sublist (List.filter_sublist.map _)

-- A breaker is open, or half-open, or has not seen enough failures.
theorem not_opens_of_halfOpens {failureThreshold : Int} {resetAfter : ℚ}
    (h : history.HalfOpens failureThreshold resetAfter now) :
    ¬ history.Opens failureThreshold resetAfter now := by
  obtain ⟨-, last, hlast, helapsed⟩ := h
  rintro ⟨-, other, hother, hrecent⟩
  obtain rfl : last = other := Option.some.inj (hlast.symm.trans hother)
  linarith

end History

-- What the fields of a breaker say about the failures it has recorded. An open
-- breaker whose reset period is over may have been asked or not.
inductive Tracks (failureThreshold : Int) (resetAfter : ℚ) (failures : List ℚ) (now : ℚ) :
    CircuitBreaker → Prop where
  | counting (below : failures = [] ∨ failures.length < failureThreshold) :
      Tracks failureThreshold resetAfter failures now
        ⟨failureThreshold, resetAfter, failures.length, none⟩
  | tripped (reached : failureThreshold ≤ failures.length) (last : ℚ)
      (latest : failures.getLast? = some last) (count : Int) (counted : failureThreshold ≤ count) :
      Tracks failureThreshold resetAfter failures now
        ⟨failureThreshold, resetAfter, count, some last⟩
  | expired (reached : failureThreshold ≤ failures.length) (last : ℚ)
      (latest : failures.getLast? = some last) (elapsed : resetAfter ≤ now - last) :
      Tracks failureThreshold resetAfter failures now
        ⟨failureThreshold, resetAfter, failureThreshold - 1, none⟩

section tracks

variable {failureThreshold : Int} {resetAfter : ℚ} {failures : List ℚ} {now later : ℚ}
  {breaker : CircuitBreaker}

theorem Tracks.mono (htracks : Tracks failureThreshold resetAfter failures now breaker)
    (hlater : now ≤ later) : Tracks failureThreshold resetAfter failures later breaker := by
  cases htracks with
  | counting below => exact .counting below
  | tripped reached last latest count counted => exact .tripped reached last latest count counted
  | expired reached last latest elapsed => exact .expired reached last latest (by linarith)

theorem Tracks.recordSuccess
    (htracks : Tracks failureThreshold resetAfter failures now breaker) :
    Tracks failureThreshold resetAfter [] now breaker.recordSuccess := by
  cases htracks <;> exact .counting (.inl rfl)

-- A failure is counted, and from the threshold on it restarts the timer.
theorem Tracks.recordFailure (htracks : Tracks failureThreshold resetAfter failures now breaker) :
    ∃ after, breaker.recordFailure.answered (clockAt now) = some after ∧
      Tracks failureThreshold resetAfter (failures ++ [now]) now after := by
  have hlatest : (failures ++ [now]).getLast? = some now := List.getLast?_concat
  have hlength : (failures ++ [now]).length = failures.length + 1 := List.length_append
  have hreopened : ∀ count : Int, failureThreshold ≤ count + 1 →
      failureThreshold ≤ failures.length + 1 →
      ∃ after, (CircuitBreaker.mk failureThreshold resetAfter count breaker.openedAt
        |>.recordFailure).answered (clockAt now) = some after ∧
        Tracks failureThreshold resetAfter (failures ++ [now]) now after := by
    intro count hcount hreached
    refine ⟨⟨failureThreshold, resetAfter, count + 1, some now⟩, ?_, ?_⟩
    · unfold CircuitBreaker.recordFailure
      simp only [ge_iff_le, if_pos hcount]
      rfl
    · exact .tripped (by rw [hlength]; omega) now hlatest (count + 1) hcount
  cases htracks with
  | counting below =>
      by_cases hreached : failureThreshold ≤ (failures.length : Int) + 1
      · exact hreopened _ hreached hreached
      · refine ⟨⟨failureThreshold, resetAfter, (failures.length : Int) + 1, none⟩, ?_, ?_⟩
        · unfold CircuitBreaker.recordFailure
          simp only [ge_iff_le, if_neg hreached]
          rfl
        · have hcount : ((failures ++ [now]).length : Int) = (failures.length : Int) + 1 := by
            rw [hlength]
            omega
          rw [← hcount]
          exact .counting (.inr (by omega))
  | tripped reached last latest count counted => exact hreopened count (by omega) (by omega)
  | expired reached last latest elapsed => exact hreopened _ (by omega) (by omega)

-- is_open answers as the failures say, and asking does not change what they say.
theorem Tracks.isOpen (history : History)
    (htracks : Tracks failureThreshold resetAfter history.failures now breaker) :
    ∃ answer after, breaker.isOpen.answered (clockAt now) = some (answer, after) ∧
      Tracks failureThreshold resetAfter history.failures now after ∧
      (answer = true ↔ history.Opens failureThreshold resetAfter now) := by
  cases htracks with
  | counting below =>
      refine ⟨false, _, rfl, .counting below, iff_of_false Bool.false_ne_true ?_⟩
      rintro ⟨hreached, last, hlast, -⟩
      rcases below with hnone | hbelow
      · rw [hnone] at hlast
        cases hlast
      · exact absurd hreached (not_le.mpr hbelow)
  | tripped reached last latest count counted =>
      by_cases helapsed : resetAfter ≤ now - last
      · refine ⟨false, ⟨failureThreshold, resetAfter, failureThreshold - 1, none⟩, ?_,
          .expired reached last latest helapsed, ?_⟩
        · change (if now - last ≥ resetAfter then _ else _ : Program sig _).answered _ = _
          rw [if_pos helapsed]
          rfl
        · exact iff_of_false Bool.false_ne_true
            (History.not_opens_of_halfOpens ⟨reached, last, latest, helapsed⟩)
      · refine ⟨true, ⟨failureThreshold, resetAfter, count, some last⟩, ?_,
          .tripped reached last latest count counted, ?_⟩
        · change (if now - last ≥ resetAfter then _ else _ : Program sig _).answered _ = _
          rw [if_neg helapsed]
          rfl
        · exact iff_of_true rfl ⟨reached, last, latest, not_le.mp helapsed⟩
  | expired reached last latest elapsed =>
      refine ⟨false, _, rfl, .expired reached last latest elapsed, ?_⟩
      exact iff_of_false Bool.false_ne_true
        (History.not_opens_of_halfOpens ⟨reached, last, latest, elapsed⟩)

theorem Tracks.access (history : History)
    (htracks : Tracks failureThreshold resetAfter history.failures now breaker) (access : Access) :
    ∃ after, breaker.access now access = some after ∧
      Tracks failureThreshold resetAfter (History.failures (history ++ [(now, access)])) now
        after := by
  rw [History.failures_append]
  cases access with
  | success => exact ⟨_, rfl, htracks.recordSuccess⟩
  | failure => exact htracks.recordFailure
  | check =>
      obtain ⟨answer, after, hasked, hafter, -⟩ := htracks.isOpen history
      exact ⟨after, by rw [CircuitBreaker.access, hasked]; rfl, hafter⟩

end tracks

namespace CircuitBreaker

variable {failureThreshold : Int} {resetAfter : ℚ} {now : ℚ} {history : History}

theorem replay_append (breaker : CircuitBreaker) (history : History) (now : ℚ) (access : Access) :
    breaker.replay (history ++ [(now, access)]) =
      (breaker.replay history).bind fun later => later.access now access := by
  unfold replay
  rw [List.foldlM_append]
  simp only [List.foldlM_cons, List.foldlM_nil, bind_pure]
  rfl

theorem tracks_replay (hordered : history.Ordered)
    (hnow : ∀ entry ∈ history, entry.1 ≤ now) :
    ∃ later, CircuitBreaker.replay { failureThreshold, resetAfter } history = some later ∧
      Tracks failureThreshold resetAfter history.failures now later := by
  induction history using List.reverseRecOn generalizing now with
  | nil => exact ⟨_, rfl, .counting (.inl rfl)⟩
  | append_singleton history entry ih =>
      obtain ⟨time, access⟩ := entry
      obtain ⟨hbefore, htime⟩ := (History.ordered_append history time access).mp hordered
      obtain ⟨later, hreplay, htracks⟩ := ih hbefore htime
      obtain ⟨after, haccess, hafter⟩ := htracks.access history access
      refine ⟨after, ?_, hafter.mono (hnow (time, access) (by simp))⟩
      rw [replay_append, hreplay]
      exact haccess

theorem asked_eq (hordered : history.Ordered)
    (hnow : ∀ entry ∈ history, entry.1 ≤ now) :
    ∃ answer, CircuitBreaker.asked { failureThreshold, resetAfter } history now = some answer ∧
      (answer = true ↔ history.Opens failureThreshold resetAfter now) := by
  obtain ⟨later, hreplay, htracks⟩ := @tracks_replay failureThreshold resetAfter now history
    hordered hnow
  obtain ⟨answer, after, hasked, -, hopens⟩ := htracks.isOpen history
  refine ⟨answer, ?_, hopens⟩
  unfold asked
  rw [hreplay]
  change (later.isOpen.answered (clockAt now)).bind _ = _
  rw [hasked]
  rfl

-- What is_open answers depends on the recorded outcomes and their times alone:
-- the questions asked before leave no trace.
theorem asked_iff_opens (failureThreshold : Int) (resetAfter : ℚ) (history : History) (now : ℚ)
    (hordered : history.Ordered) (hnow : ∀ entry ∈ history, entry.1 ≤ now) :
    (CircuitBreaker.asked { failureThreshold, resetAfter } history now = some true ↔
      history.Opens failureThreshold resetAfter now) ∧
    (CircuitBreaker.asked { failureThreshold, resetAfter } history now = some false ↔
      ¬ history.Opens failureThreshold resetAfter now) ∧
    CircuitBreaker.asked { failureThreshold, resetAfter } history.unchecked now =
      CircuitBreaker.asked { failureThreshold, resetAfter } history now := by
  obtain ⟨answer, hasked, hopens⟩ := @asked_eq failureThreshold resetAfter now history hordered
    hnow
  obtain ⟨other, hother, hsame⟩ := @asked_eq failureThreshold resetAfter now history.unchecked
    hordered.unchecked fun entry hentry => hnow entry (List.mem_of_mem_filter hentry)
  have hagree : other = true ↔ answer = true := by
    rw [hsame, hopens, History.Opens, History.failures_unchecked]
    rfl
  rw [hasked, hother, Option.some_inj, Option.some_inj, Option.some_inj]
  refine ⟨hopens, ?_, Bool.eq_iff_iff.mpr hagree⟩
  rw [← hopens, Bool.not_eq_true]

theorem asked_iff_opens_reopened :
    let history : History := [(0, .failure), (1, .failure), (6, .check), (7, .failure)]
    (CircuitBreaker.asked { failureThreshold := 2, resetAfter := 5 } history 8 = some true ↔
      history.Opens 2 5 8) ∧
    (CircuitBreaker.asked { failureThreshold := 2, resetAfter := 5 } history 8 = some false ↔
      ¬ history.Opens 2 5 8) ∧
    CircuitBreaker.asked { failureThreshold := 2, resetAfter := 5 } history.unchecked 8 =
      CircuitBreaker.asked { failureThreshold := 2, resetAfter := 5 } history 8 := by
  refine asked_iff_opens 2 5 _ 8 ?_ ?_
  · unfold History.Ordered
    decide +kernel
  · decide +kernel

end CircuitBreaker

section callers

variable {Caller : Type} {failureThreshold : Int} {resetAfter : ℚ}

-- The breaker lets through whoever asks while it is half-open, so it admits a
-- single trial exactly when its callers take turns.
theorem singleTrial_iff_takesTurns (failureThreshold : Int) (resetAfter : ℚ)
    (accesses : Shared Caller) (hordered : accesses.history.Ordered) :
    SingleTrial { failureThreshold, resetAfter } accesses ↔
      TakesTurns { failureThreshold, resetAfter } accesses := by
  have hanswer : ∀ (before after : Shared Caller) (caller : Caller) (now : ℚ),
      accesses = before ++ (caller, now, .check) :: after →
      (CircuitBreaker.asked { failureThreshold, resetAfter } before.history now = some false ↔
        ¬ before.history.Opens failureThreshold resetAfter now) := by
    intro before after caller now hsplit
    have hearlier : (before.history ++ [(now, Access.check)]).Sublist accesses.history := by
      rw [hsplit, Shared.history, Shared.history, List.map_append, List.map_cons]
      exact (List.Sublist.refl _).append ((List.nil_sublist _).cons_cons _)
    obtain ⟨hbefore, hnow⟩ := (History.ordered_append before.history now .check).mp
      (hordered.sublist (hearlier.map _))
    exact (CircuitBreaker.asked_iff_opens failureThreshold resetAfter before.history now hbefore
      hnow).2.1
  have hsecond : ∀ (before between after : Shared Caller) (trial other : Caller) (now later : ℚ),
      accesses = before ++ (trial, now, .check) :: between ++ (other, later, .check) :: after →
      (CircuitBreaker.asked { failureThreshold, resetAfter }
          (Shared.history (before ++ (trial, now, .check) :: between)) later = some false ↔
        ¬ (Shared.history (before ++ (trial, now, .check) :: between)).Opens failureThreshold
          resetAfter later) :=
    fun before between after trial other now later hsplit => hanswer _ _ other later hsplit
  constructor
  · intro hsingle before between after trial other now later hsplit hne hhalf hclosed
    have htrial : accesses =
        before ++ (trial, now, .check) :: (between ++ (other, later, .check) :: after) := by
      rw [hsplit, List.append_assoc, List.cons_append]
    have hlet := (hanswer before _ trial now htrial).mpr (History.not_opens_of_halfOpens hhalf)
    exact hsingle before between after trial other now later hsplit hne hhalf hlet
      ((hsecond before between after trial other now later hsplit).mpr hclosed)
  · intro hturns before between after trial other now later hsplit hne hhalf _ hlet
    exact hturns before between after trial other now later hsplit hne hhalf
      ((hsecond before between after trial other now later hsplit).mp hlet)

-- One caller has its trial and records a success before the next one asks.
theorem singleTrial_iff_takesTurns_alone :
    let accesses : Shared String :=
      [("a", 0, .check), ("a", 1, .failure), ("b", 20, .check), ("b", 21, .success)]
    SingleTrial { failureThreshold := 1, resetAfter := 15 } accesses ↔
      TakesTurns { failureThreshold := 1, resetAfter := 15 } accesses := by
  refine singleTrial_iff_takesTurns 1 15 _ ?_
  unfold History.Ordered
  decide +kernel

-- Two callers that ask one after the other are both let through.
theorem not_singleTrial :
    ¬ ∀ accesses : Shared String, accesses.history.Ordered →
      SingleTrial { failureThreshold := 1, resetAfter := 15 } accesses := by
  intro hsingle
  have hboth := hsingle [("a", 0, .check), ("a", 1, .failure), ("b", 20, .check), ("c", 21, .check)]
    (by unfold History.Ordered; decide +kernel)
  have hhalf : History.HalfOpens 1 15 [(0, .check), (1, .failure)] 20 :=
    ⟨by decide, 1, rfl, by decide +kernel⟩
  obtain ⟨now, access, hmem, -⟩ := hboth [("a", 0, .check), ("a", 1, .failure)] [] [] "b" "c" 20 21
    rfl (by decide) hhalf (by decide +kernel) (by decide +kernel)
  cases hmem

end callers

end QuantumPlatform.Orchestrator
