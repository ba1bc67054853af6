import QuantumPlatform.Orchestrator.Protocol
import QuantumPlatform.Orchestrator.Polling.Theorems
import Mathlib.Tactic.Linarith
import Mathlib.Algebra.Order.Field.Basic
import Mathlib.Data.List.Induction

namespace QuantumPlatform.Orchestrator

open Process Python QuantumPlatform.Core

section calls

variable (first second : List (Event sig)) {past : List (Event sig)}

@[simp] theorem polls_append : polls (first ++ second) = polls first + polls second :=
  List.countP_append

@[simp] theorem fetches_append : fetches (first ++ second) = fetches first + fetches second :=
  List.countP_append

@[simp] theorem cancels_append : cancels (first ++ second) = cancels first + cancels second :=
  List.countP_append

@[simp] theorem sleeps_append : sleeps (first ++ second) = sleeps first ++ sleeps second :=
  List.filterMap_append

theorem Raised.append {exc : Exc} (h : Raised (past ++ second) exc) :
    Raised past exc ∨ Raised second exc := by
  obtain ⟨handle, hpoll | hfetch⟩ := h
  · rcases List.mem_append.mp hpoll with hold | hnew
    · exact .inl ⟨handle, .inl hold⟩
    · exact .inr ⟨handle, .inl hnew⟩
  · rcases List.mem_append.mp hfetch with hold | hnew
    · exact .inl ⟨handle, .inr hold⟩
    · exact .inr ⟨handle, .inr hnew⟩

-- Whatever is neither a poll nor a fetch raises nothing.
theorem not_raised_single {op : Effect} {answer : op.Ans} {exc : Exc}
    (hpoll : isPoll ⟨op, answer⟩ = false) (hfetch : isFetch ⟨op, answer⟩ = false) :
    ¬ Raised [⟨op, answer⟩] exc := by
  rintro ⟨handle, hmem | hmem⟩
  · obtain ⟨rfl, -⟩ := Sigma.mk.inj (List.mem_singleton.mp hmem)
    cases hpoll
  · obtain ⟨rfl, -⟩ := Sigma.mk.inj (List.mem_singleton.mp hmem)
    cases hfetch

end calls

namespace PollingConfig

variable {config : PollingConfig} (hvalid : config.Valid)

include hvalid

theorem pause_zero : config.pause 0 = config.initialInterval := by
  unfold pause
  rw [pow_zero, mul_one]
  exact min_eq_left hvalid.max

theorem pause_succ (turn : Nat) :
    config.pause (turn + 1) = min (config.pause turn * config.backoffFactor) config.maxInterval := by
  have hpositive : 0 < config.maxInterval := hvalid.initial.trans_le hvalid.max
  have hgrows : config.maxInterval ≤ config.maxInterval * config.backoffFactor :=
    le_mul_of_one_le_right hpositive.le hvalid.backoff
  unfold pause
  rw [min_mul_of_nonneg _ _ (zero_le_one.trans hvalid.backoff), min_assoc, min_eq_right hgrows,
    pow_succ, mul_assoc]

theorem le_pause (turn : Nat) : config.initialInterval ≤ config.pause turn :=
  le_min (le_mul_of_one_le_right hvalid.initial.le (one_le_pow₀ hvalid.backoff)) hvalid.max

-- A turn that starts in time is one of those counted.
theorem lt_turns {turn : Nat} (h : turn * config.initialInterval ≤ config.timeout) :
    turn < config.turns := by
  have hfloor : turn ≤ ⌊config.timeout / config.initialInterval⌋₊ :=
    Nat.le_floor ((le_div_iff₀ hvalid.initial).mpr h)
  unfold turns
  omega

end PollingConfig

section ended

variable {config : PollingConfig} {handle : JobHandle} {clock : ℚ} {past : List (Event sig)}
  (hexact : stopwatch.Admits clock past →
    (sleeps past).sum ≤ config.timeout + config.maxInterval)

include hexact

theorem ended_ok (hcancels : cancels past = 0) (result : ExperimentResult) :
    WaitEnded config handle clock past (.ok result) := by
  refine ⟨iff_of_false (by omega) ?_, hexact⟩
  rintro (htimeout | hcaller)
  · cases htimeout.1
  · cases hcaller.1

theorem ended_other (hcancels : cancels past = 0) (exc : Exc)
    (htimeout : exc ≠ pollingTimeoutError handle config.timeout)
    (hcaller : exc ≠ cancelledByCaller handle) : WaitEnded config handle clock past (.error exc) := by
  refine ⟨iff_of_false (by omega) ?_, hexact⟩
  rintro (h | h)
  · exact htimeout (Except.error.inj h.1)
  · exact hcaller (Except.error.inj h.1)

-- What the backend raised is not the end of the wait itself.
theorem ended_raised (hcancels : cancels past = 0) (exc : Exc) (hraised : Raised past exc) :
    WaitEnded config handle clock past (.error exc) := by
  refine ⟨iff_of_false (by omega) ?_, hexact⟩
  rintro (h | h)
  · obtain rfl := Except.error.inj h.1
    exact h.2 hraised
  · obtain rfl := Except.error.inj h.1
    exact h.2 hraised

theorem ended_abandoned (hcancels : 0 < cancels past)
    (hraised : ∀ exc, Raised past exc → isTransient exc = true) (exc : Exc)
    (hexc : exc = pollingTimeoutError handle config.timeout ∨ exc = cancelledByCaller handle) :
    WaitEnded config handle clock past (.error exc) := by
  refine ⟨iff_of_true hcancels ?_, hexact⟩
  rcases hexc with rfl | rfl
  · refine .inl ⟨rfl, fun h => ?_⟩
    have htransient := hraised _ h
    cases htransient
  · refine .inr ⟨rfl, fun h => ?_⟩
    have htransient := hraised _ h
    cases htransient

omit hexact in
theorem WaitEnded.reading {result : Except Exc ExperimentResult}
    (hended : WaitEnded config handle clock past result) (now : ℚ) :
    WaitEnded config handle clock (past ++ [⟨.monotonic, now⟩]) result := by
  have hraised : ∀ exc, Raised (past ++ [⟨.monotonic, now⟩]) exc ↔ Raised past exc := by
    intro exc
    constructor
    · intro h
      exact (h.append _).resolve_right (not_raised_single rfl rfl)
    · rintro ⟨handle, hmem | hmem⟩
      · exact ⟨handle, .inl (List.mem_append_left _ hmem)⟩
      · exact ⟨handle, .inr (List.mem_append_left _ hmem)⟩
  have hcancels : cancels (past ++ [⟨.monotonic, now⟩]) = cancels past := cancels_append _ _
  have hsleeps : sleeps (past ++ [⟨.monotonic, now⟩]) = sleeps past := by
    rw [sleeps_append]
    exact List.append_nil _
  refine ⟨?_, fun hadmits => ?_⟩
  · rw [hcancels, hended.1, TimedOut, TimedOut, CancelledByCaller, CancelledByCaller, hraised,
      hraised]
  · rw [hsleeps]
    exact hended.2 ((Monitor.admits_append _ _ _).mp hadmits).1

end ended

section turn

variable {config : PollingConfig} {handle : JobHandle} {clock start : ℚ}
  {past : List (Event sig)} {turn : Nat} {retries : Int}

theorem clocked_append (op : Effect) (answer : op.Ans) :
    clocked.after clock (past ++ [⟨op, answer⟩]) =
      clocked.next (clocked.after clock past) op answer :=
  Monitor.after_append _ _ _

-- The stopwatch shows how long the coroutine has slept.
theorem stopwatch_after (clock : ℚ) (events : List (Event sig)) :
    stopwatch.after clock events = clock + (sleeps events).sum := by
  induction events generalizing clock with
  | nil => exact (add_zero clock).symm
  | cons event rest ih =>
      obtain ⟨op, answer⟩ := event
      change stopwatch.after (stopwatch.next clock op answer) rest = _
      rw [ih]
      cases op with
      | sleep seconds =>
          change clock + seconds + (sleeps rest).sum = clock + (seconds + (sleeps rest).sum)
          rw [add_assoc]
      | _ => rfl

theorem stopwatch_reads {now : ℚ} (h : stopwatch.Admits clock (past ++ [⟨.monotonic, now⟩])) :
    stopwatch.Admits clock past ∧ now = clock + (sleeps past).sum := by
  obtain ⟨hpast, hnow, -⟩ := (Monitor.admits_append _ _ _).mp h
  have hnow : stopwatch.after clock past = now := hnow
  rw [stopwatch_after] at hnow
  exact ⟨hpast, hnow.symm⟩

-- The call that asks whether the caller has cancelled changes nothing.
theorem Turn.asked (hturn : Turn config clock start past turn retries) (requested : Bool) :
    Turn config clock start (past ++ [⟨.cancelled, requested⟩]) turn retries where
  polls := by rw [polls_append]; exact hturn.polls
  sleeps := by
    rw [sleeps_append, ← hturn.sleeps]
    exact List.append_nil _
  fetches := by rw [fetches_append]; exact hturn.fetches
  retries := hturn.retries
  cancels := by rw [cancels_append]; exact hturn.cancels
  raised exc h := hturn.raised exc ((h.append _).resolve_right (not_raised_single rfl rfl))
  time := hturn.time.trans_eq (clocked_append .cancelled requested).symm
  bound := hturn.bound
  exact hadmits := by
    have hsleeps : Orchestrator.sleeps (past ++ [⟨.cancelled, requested⟩]) =
        Orchestrator.sleeps past := by
      rw [sleeps_append]
      exact List.append_nil _
    rw [hsleeps]
    exact hturn.exact ((Monitor.admits_append _ _ _).mp hadmits).1

-- A turn in which the backend has been asked for the status.
structure Polled (config : PollingConfig) (clock start : ℚ) (past : List (Event sig)) (turn : Nat)
    (retries : Int) : Prop where
  polls : Orchestrator.polls past = turn + 1
  sleeps : Orchestrator.sleeps past = (List.range turn).map config.pause
  fetches : (Orchestrator.fetches past : Int) = retries
  retries : retries ≤ config.maxRetriesOnTransientError
  cancels : Orchestrator.cancels past = 0
  time : start + turn * config.initialInterval ≤ clocked.after clock past
  bound : turn + 1 ≤ config.turns
  exact : stopwatch.Admits clock past →
    start = clock ∧ (Orchestrator.sleeps past).sum ≤ config.timeout

-- The clock was read in time, so there is a poll left.
theorem Turn.polled (hturn : Turn config clock start past turn retries) (hvalid : config.Valid)
    {now : ℚ} (hnow : clocked.after clock past ≤ now) (hintime : now - start ≤ config.timeout)
    (answer : Except Exc JobStatus) :
    Polled config clock start
      (past ++ [⟨.monotonic, now⟩] ++ [⟨.pollStatus handle, answer⟩]) turn retries := by
  have htime := hturn.time
  have hlt : turn < config.turns := PollingConfig.lt_turns hvalid (by linarith)
  have hsleeps : Orchestrator.sleeps
      (past ++ [⟨.monotonic, now⟩] ++ [⟨.pollStatus handle, answer⟩]) =
        Orchestrator.sleeps past := by
    rw [sleeps_append, sleeps_append]
    exact (List.append_nil _).trans (List.append_nil _)
  refine ⟨?_, hsleeps.trans hturn.sleeps, ?_, hturn.retries, ?_, ?_, hlt, fun hadmits => ?_⟩
  · rw [polls_append, polls_append, hturn.polls]
    rfl
  · rw [fetches_append, fetches_append]
    exact hturn.fetches
  · rw [cancels_append, cancels_append]
    exact hturn.cancels
  · have hread : clocked.after clock
        (past ++ [⟨.monotonic, now⟩] ++ [⟨.pollStatus handle, answer⟩]) = now :=
      (clocked_append (.pollStatus handle) answer).trans (clocked_append .monotonic now)
    rw [hread]
    linarith
  · obtain ⟨hread, hclock⟩ := stopwatch_reads ((Monitor.admits_append _ _ _).mp hadmits).1
    obtain ⟨hstart, -⟩ := hturn.exact hread
    rw [hsleeps]
    exact ⟨hstart, by linarith⟩

-- With exact sleeps the wait has not lasted longer than it may.
theorem Polled.within (hpolled : Polled config clock start past turn retries)
    (hvalid : config.Valid) (hadmits : stopwatch.Admits clock past) :
    (Orchestrator.sleeps past).sum ≤ config.timeout + config.maxInterval := by
  have hmax := hvalid.initial.le.trans hvalid.max
  have hslept := (hpolled.exact hadmits).2
  linarith

theorem Polled.fetched (hpolled : Polled config clock start past turn retries) (exc : Exc)
    (hleft : retries + 1 ≤ config.maxRetriesOnTransientError) :
    Polled config clock start (past ++ [⟨.fetchResult handle, .error exc⟩]) turn
      (retries + 1) := by
  have hsleeps : Orchestrator.sleeps (past ++ [⟨.fetchResult handle, .error exc⟩]) =
      Orchestrator.sleeps past := by
    rw [sleeps_append]
    exact List.append_nil _
  refine ⟨?_, hsleeps.trans hpolled.sleeps, ?_, hleft, ?_, ?_, hpolled.bound, fun hadmits => ?_⟩
  · rw [polls_append]
    exact hpolled.polls
  · have hfetches := hpolled.fetches
    rw [fetches_append]
    change ((Orchestrator.fetches past + 1 : Nat) : Int) = _
    omega
  · rw [cancels_append]
    exact hpolled.cancels
  · exact hpolled.time.trans_eq (clocked_append (.fetchResult handle) (.error exc)).symm
  · rw [hsleeps]
    exact hpolled.exact ((Monitor.admits_append _ _ _).mp hadmits).1

-- After the pause the next turn starts, later by at least the initial interval.
theorem Polled.slept (hpolled : Polled config clock start past turn retries)
    (hvalid : config.Valid) (hraised : ∀ exc, Raised past exc → isTransient exc = true) :
    Turn config clock start (past ++ [⟨.sleep (config.pause turn), ()⟩]) (turn + 1) retries := by
  have hpause := PollingConfig.le_pause hvalid turn
  have hsleeps : Orchestrator.sleeps (past ++ [⟨.sleep (config.pause turn), ()⟩]) =
      Orchestrator.sleeps past ++ [config.pause turn] := sleeps_append _ _
  refine ⟨?_, ?_, ?_, hpolled.retries, ?_, ?_, ?_, hpolled.bound, fun hadmits => ?_⟩
  · rw [polls_append]
    exact hpolled.polls
  · rw [hsleeps, hpolled.sleeps, List.range_succ, List.map_append]
    rfl
  · rw [fetches_append]
    exact hpolled.fetches
  · rw [cancels_append]
    exact hpolled.cancels
  · intro exc h
    exact hraised exc ((h.append _).resolve_right (not_raised_single rfl rfl))
  · have htime := hpolled.time
    have hslept : clocked.after clock (past ++ [⟨.sleep (config.pause turn), ()⟩]) =
        clocked.after clock past + config.pause turn :=
      clocked_append (.sleep (config.pause turn)) ()
    rw [hslept, Nat.cast_add, Nat.cast_one]
    linarith
  · obtain ⟨hstart, hslept⟩ := hpolled.exact ((Monitor.admits_append _ _ _).mp hadmits).1
    have hmax : config.pause turn ≤ config.maxInterval := min_le_right _ _
    rw [hsleeps, List.sum_append, List.sum_singleton]
    exact ⟨hstart, by linarith⟩

end turn

section waiting

variable {config : PollingConfig} {handle : JobHandle} {clock start : ℚ}
  {past : List (Event sig)} {turn fuel budget : Nat} {retries : Int}

theorem Raised.single {op : Effect} {answer : op.Ans} {exc : Exc}
    (hraised : ∀ exc, Raised past exc → isTransient exc = true)
    (hop : ∀ exc, Raised [⟨op, answer⟩] exc → isTransient exc = true)
    (h : Raised (past ++ [⟨op, answer⟩]) exc) : isTransient exc = true :=
  (h.append _).elim (hraised exc) (hop exc)

-- The clock may be read once more when the failure is recorded.
theorem failed_calls (waiting : Waiting) (exc : Exc)
    (hended : WaitEnded config handle clock past (.error exc)) :
    (calling config handle budget clock).Obeys
      (fun later outcome => WaitEnded config handle clock later outcome.1) past
      (waiting.failed.bind fun later => .ret (.error exc, later)) :=
  failed_obeys waiting _ trivial (fun _ => hended) fun now _ => hended.reading now

-- Giving up cancels the job, and that is the last call.
theorem abandon_calls (waiting : Waiting) (exc : Exc) (hcancels : cancels past = 0)
    (hraised : ∀ exc, Raised past exc → isTransient exc = true)
    (hexact : stopwatch.Admits clock past →
      (sleeps past).sum ≤ config.timeout + config.maxInterval)
    (hexc : exc = pollingTimeoutError handle config.timeout ∨ exc = cancelledByCaller handle) :
    (calling config handle budget clock).Obeys
      (fun later outcome => WaitEnded config handle clock later outcome.1) past
      ((abandon handle exc).bind fun outcome => .ret (outcome, waiting)) := by
  refine ⟨⟨rfl, hcancels⟩, fun answer hanswer => ?_⟩
  obtain rfl : answer = Except.ok () := hanswer.2
  refine ended_abandoned ?_ ?_ ?_ exc hexc
  · intro hadmits
    have hsleeps : sleeps (past ++ [⟨.cancel handle, .ok ()⟩]) = sleeps past := by
      rw [sleeps_append]
      exact List.append_nil _
    change (sleeps (past ++ [⟨.cancel handle, .ok ()⟩])).sum ≤ _
    rw [hsleeps]
    exact hexact ((Monitor.admits_append _ _ _).mp hadmits).1
  · change 0 < cancels (past ++ [⟨.cancel handle, .ok ()⟩])
    rw [cancels_append]
    exact Nat.lt_add_left _ Nat.one_pos
  · intro other h
    exact hraised other ((h.append _).resolve_right (not_raised_single rfl rfl))

variable (hvalid : config.Valid)
  {again : ℚ → Int → Waiting → Program sig (Except Exc ExperimentResult × Waiting)}
  (hagain : ∀ later retries waiting, Turn config clock start later (turn + 1) retries →
    (calling config handle budget clock).Obeys
      (fun last outcome => WaitEnded config handle clock last outcome.1) later
      (again (config.pause (turn + 1)) retries waiting))

include hvalid hagain

-- A pause, and the next turn.
theorem pause_calls (waiting : Waiting)
    (hpolled : Polled config clock start past turn retries)
    (hraised : ∀ exc, Raised past exc → isTransient exc = true) :
    (calling config handle budget clock).Obeys
      (fun later outcome => WaitEnded config handle clock later outcome.1) past
      (.call (.sleep (config.pause turn)) fun _ =>
        again (min (config.pause turn * config.backoffFactor) config.maxInterval) retries
          waiting) := by
  have hturns : config.pause turn = config.pause (sleeps past).length := by
    rw [hpolled.sleeps, List.length_map, List.length_range]
  refine ⟨⟨hpolled.cancels, hturns⟩, fun answer _ => ?_⟩
  rw [← PollingConfig.pause_succ hvalid turn]
  exact hagain _ retries waiting (hpolled.slept hvalid hraised)

theorem collect_calls (waiting : Waiting)
    (hpolled : Polled config clock start past turn retries) (hfinished : Finished handle past)
    (hraised : ∀ exc, Raised past exc → isTransient exc = true) :
    (calling config handle budget clock).Obeys
      (fun later outcome => WaitEnded config handle clock later outcome.1) past
      (collect handle config (config.pause turn) retries waiting again) := by
  have hbudget : (fetches past : Int) ≤ config.maxRetriesOnTransientError := by
    rw [hpolled.fetches]
    exact hpolled.retries
  have hexact : ∀ answer, stopwatch.Admits clock (past ++ [⟨.fetchResult handle, answer⟩]) →
      (sleeps (past ++ [⟨.fetchResult handle, answer⟩])).sum ≤
        config.timeout + config.maxInterval := by
    intro answer hadmits
    have hsleeps : sleeps (past ++ [⟨.fetchResult handle, answer⟩]) = sleeps past := by
      rw [sleeps_append]
      exact List.append_nil _
    rw [hsleeps]
    exact hpolled.within hvalid ((Monitor.admits_append _ _ _).mp hadmits).1
  have hcancels : ∀ answer, cancels (past ++ [⟨.fetchResult handle, answer⟩]) = 0 := by
    intro answer
    rw [cancels_append]
    exact hpolled.cancels
  rw [collect_eq]
  refine ⟨⟨rfl, hpolled.cancels, hbudget, hfinished⟩, fun answer _ => ?_⟩
  cases answer with
  | ok result => exact ended_ok (hexact (.ok result)) (hcancels _) result
  | error exc =>
      have hended : WaitEnded config handle clock (past ++ [⟨.fetchResult handle, .error exc⟩])
          (.error exc) :=
        ended_raised (hexact (.error exc)) (hcancels _) exc ⟨handle, .inr (by simp)⟩
      by_cases htransient : isTransient exc = true
      · simp only [if_pos htransient]
        split_ifs with hspent
        · exact failed_calls _ exc hended
        · refine pause_calls hvalid hagain _ (hpolled.fetched exc (by omega)) ?_
          refine fun other => Raised.single hraised ?_
          rintro other ⟨named, hmem | hmem⟩
          · cases List.mem_singleton.mp hmem
          · cases List.mem_singleton.mp hmem
            exact htransient
      · simp only [if_neg htransient]
        exact hended

theorem poll_calls (waiting : Waiting) (hturn : Turn config clock start past turn retries) :
    (calling config handle budget clock).Obeys
      (fun later outcome => WaitEnded config handle clock later outcome.1) past
      (poll handle config start (config.pause turn) retries waiting again) := by
  rw [poll_eq]
  refine ⟨trivial, fun (now : ℚ) hanswer => ?_⟩
  have hnow : clocked.after clock past ≤ now := hanswer.1
  have hread : ∀ exc, Raised (past ++ [⟨.monotonic, now⟩]) exc → isTransient exc = true :=
    fun exc h => hturn.raised exc ((h.append _).resolve_right (not_raised_single rfl rfl))
  have hcancels : cancels (past ++ [⟨.monotonic, now⟩]) = 0 := by
    rw [cancels_append]
    exact hturn.cancels
  beta_reduce
  split_ifs with hlate
  · have hexact : stopwatch.Admits clock (past ++ [⟨.monotonic, now⟩]) →
        (sleeps (past ++ [⟨.monotonic, now⟩])).sum ≤ config.timeout + config.maxInterval := by
      intro hadmits
      have hsleeps : sleeps (past ++ [⟨.monotonic, now⟩]) = sleeps past := by
        rw [sleeps_append]
        exact List.append_nil _
      rw [hsleeps]
      exact (hturn.exact (stopwatch_reads hadmits).1).2
    exact abandon_calls waiting _ hcancels hread hexact (.inl rfl)
  · have hintime : now - start ≤ config.timeout := not_lt.mp hlate
    have hlt : turn < config.turns := by
      have htime := hturn.time
      exact PollingConfig.lt_turns hvalid (by linarith)
    have hpolls : polls (past ++ [⟨.monotonic, now⟩]) < config.turns := by
      rw [polls_append, hturn.polls]
      exact hlt
    refine ⟨⟨rfl, hcancels, hpolls⟩, fun answer _ => ?_⟩
    have hpolled := @Turn.polled config handle clock start past turn retries hturn hvalid now hnow
      hintime answer
    rcases answer with exc | status
    · have hended : WaitEnded config handle clock _ (.error exc) :=
        ended_raised (hpolled.within hvalid) hpolled.cancels exc ⟨handle, .inl (by simp)⟩
      simp only
      split_ifs
      · exact failed_calls _ exc hended
      · exact hended
    · have hquiet : ∀ exc, Raised (past ++ [⟨.monotonic, now⟩] ++
          [⟨.pollStatus handle, .ok status⟩]) exc → isTransient exc = true := by
        refine fun exc => Raised.single hread ?_
        rintro other ⟨named, hmem | hmem⟩
        · cases List.mem_singleton.mp hmem
        · cases List.mem_singleton.mp hmem
      have hlast : ∀ before : List (Event sig),
          (before ++ [⟨.pollStatus handle, .ok status⟩] : List (Event sig)).getLast? =
            some ⟨.pollStatus handle, .ok status⟩ := fun _ => List.getLast?_concat
      cases status with
      | completed =>
          exact collect_calls hvalid hagain waiting hpolled ⟨.completed, hlast _, .inl rfl⟩ hquiet
      | failed =>
          exact collect_calls hvalid hagain waiting hpolled ⟨.failed, hlast _, .inr rfl⟩ hquiet
      | queued => exact pause_calls hvalid hagain waiting hpolled hquiet
      | running => exact pause_calls hvalid hagain waiting hpolled hquiet
      | cancelled =>
          refine ended_other (hpolled.within hvalid) hpolled.cancels _ ?_ ?_
          · intro h
            cases h
          · intro h
            have hmessage := congrArg Exc.message h
            have htail := String.append_right_inj _ |>.mp hmessage
            exact absurd htail (by decide)

omit hagain in
-- Without fuel the loop hangs, after as many turns as there was fuel.
theorem pollLoop_calls (token : Bool) (fuel : Nat) (hfuel : turn + fuel = budget)
    (waiting : Waiting) (hturn : Turn config clock start past turn retries) :
    (calling config handle budget clock).Obeys
      (fun later outcome => WaitEnded config handle clock later outcome.1) past
      (pollLoop handle config token start fuel (config.pause turn) retries waiting) := by
  induction fuel generalizing past turn retries waiting with
  | zero =>
      have hbound : budget ≤ config.turns := by
        have hturns := hturn.bound
        omega
      exact ⟨hbound, fun answer => nomatch answer⟩
  | succ fuel ih =>
      have hnext : ∀ later retries waiting, Turn config clock start later (turn + 1) retries →
          (calling config handle budget clock).Obeys
            (fun last outcome => WaitEnded config handle clock last outcome.1) later
            (pollLoop handle config token start fuel (config.pause (turn + 1)) retries waiting) :=
        fun later retries waiting hlater => ih (by omega) waiting hlater
      cases token with
      | false => exact poll_calls hvalid hnext waiting.polled hturn
      | true =>
          refine ⟨hturn.cancels, fun requested _ => ?_⟩
          have hasked := hturn.asked requested
          cases requested with
          | false => exact poll_calls hvalid hnext waiting.polled hasked
          | true =>
              exact abandon_calls _ _ hasked.cancels hasked.raised
                (fun hadmits => (hasked.exact hadmits).2) (.inr rfl)

omit hvalid hagain in
theorem timed_calls (start : ℚ) (outcome : Except Exc ExperimentResult × Waiting)
    (hended : WaitEnded config handle clock past outcome.1) :
    (calling config handle budget clock).Obeys
      (fun later outcome => WaitEnded config handle clock later outcome.1) past
      (timed start outcome) := by
  unfold timed
  cases outcome.2.metrics with
  | none => exact hended
  | some metrics => exact ⟨trivial, fun now _ => hended.reading now⟩

-- Before the loop only the clock has been read.
structure Unstarted (past : List (Event sig)) : Prop where
  polls : Orchestrator.polls past = 0
  sleeps : Orchestrator.sleeps past = []
  fetches : Orchestrator.fetches past = 0
  cancels : Orchestrator.cancels past = 0
  raised : ∀ exc, ¬ Raised past exc

omit hvalid hagain in
theorem Unstarted.reading (hpast : Unstarted past) (now : ℚ) :
    Unstarted (past ++ [⟨.monotonic, now⟩]) where
  polls := by rw [polls_append]; exact hpast.polls
  sleeps := by rw [sleeps_append, hpast.sleeps]; rfl
  fetches := by rw [fetches_append]; exact hpast.fetches
  cancels := by rw [cancels_append]; exact hpast.cancels
  raised exc h := hpast.raised exc ((h.append _).resolve_right (not_raised_single rfl rfl))

omit hagain in
theorem loop_calls (hpast : Unstarted past) (token : Bool) (breaker : CircuitBreaker)
    (metrics : Option PollingMetrics) :
    (calling config handle budget clock).Obeys
      (fun later outcome => WaitEnded config handle clock later outcome.1) past
      (monotonic.bind fun start => (pollLoop handle config token start budget
        config.initialInterval 0 ⟨breaker, metrics⟩).bind (timed start)) := by
  refine ⟨trivial, fun (start : ℚ) _ => ?_⟩
  have hread := hpast.reading start
  have hturn : Turn config clock start (past ++ [⟨.monotonic, start⟩]) 0 0 := by
    refine ⟨hread.polls, hread.sleeps, ?_, hvalid.retries, hread.cancels,
      fun exc h => absurd h (hread.raised exc), ?_, Nat.zero_le _, fun hadmits => ?_⟩
    · rw [hread.fetches]
      rfl
    · have hclock : clocked.after clock (past ++ [⟨.monotonic, start⟩]) = start :=
        clocked_append .monotonic start
      rw [hclock, Nat.cast_zero, zero_mul, add_zero]
    · obtain ⟨-, hstart⟩ := stopwatch_reads hadmits
      have hmax := hvalid.initial.le.trans hvalid.max
      have htimeout := hvalid.timeout
      rw [hpast.sleeps, List.sum_nil, add_zero] at hstart
      rw [hread.sleeps, List.sum_nil]
      exact ⟨hstart, by linarith⟩
  have hloop := @pollLoop_calls config handle clock start _ 0 budget 0 hvalid token budget
    (Nat.zero_add budget) ⟨breaker, metrics⟩ hturn
  rw [PollingConfig.pause_zero hvalid] at hloop
  exact hloop.bind fun later outcome hended => timed_calls start outcome hended

omit hagain in
theorem waitForResult_calls (fuel : Nat) (backendName : String) (breaker : CircuitBreaker)
    (token : Bool) (metrics : Option PollingMetrics) :
    (calling config handle fuel clock).Obeys
      (fun later outcome => WaitEnded config handle clock later outcome.1) []
      (waitForResult fuel backendName handle config breaker token metrics) := by
  have hnone : Unstarted [] :=
    ⟨rfl, rfl, rfl, rfl, fun exc h => h.elim fun _ hmem => hmem.elim nofun nofun⟩
  cases hopened : breaker.openedAt with
  | none =>
      have hloop := @loop_calls config handle clock [] fuel hvalid hnone token breaker metrics
      unfold waitForResult CircuitBreaker.isOpen
      rw [hopened]
      exact hloop
  | some openedAt =>
      unfold waitForResult CircuitBreaker.isOpen
      rw [hopened]
      refine ⟨trivial, fun (now : ℚ) _ => ?_⟩
      have hread := hnone.reading now
      change (calling config handle fuel clock).Obeys _ [⟨.monotonic, now⟩]
        (Program.bind (if now - openedAt ≥ breaker.resetAfter then .ret _ else .ret _) _)
      split_ifs
      · exact loop_calls hvalid hread token _ metrics
      · have htimedOut : backendUnavailableError backendName ≠
            pollingTimeoutError handle config.timeout :=
          fun h => absurd (ExcClass.named.inj (congrArg Exc.cls h)) (by decide)
        refine ended_other (fun _ => ?_) hread.cancels _ htimedOut
          fun h => ExcClass.noConfusion (congrArg Exc.cls h)
        have hmax := hvalid.initial.le.trans hvalid.max
        have htimeout := hvalid.timeout
        rw [hread.sleeps, List.sum_nil]
        linarith

end waiting

section observed

variable {config : PollingConfig} {handle : JobHandle} {fuel : Nat} {events : List (Event sig)}
  (hmay : ∀ before op answer after, events = before ++ ⟨op, answer⟩ :: after →
    MayCall config handle fuel before op)

-- What happens only while it has happened less often than `limit` times
-- happens at most that often.
theorem countP_le_limit {α : Type} (kind : α → Bool) (limit : Nat) (items : List α)
    (hbefore : ∀ before item after, items = before ++ item :: after → kind item = true →
      before.countP kind < limit) : items.countP kind ≤ limit := by
  induction items using List.reverseRecOn with
  | nil => exact Nat.zero_le _
  | append_singleton items item ih =>
      have hrest := ih fun before other after hsplit hkind =>
        hbefore before other (after ++ [item]) (by rw [hsplit]; simp) hkind
      rw [List.countP_append, List.countP_singleton]
      split_ifs with hkind
      · exact hbefore items item [] rfl hkind
      · exact hrest

include hmay

theorem sleeps_eq_pauses :
    sleeps events = (List.range (sleeps events).length).map config.pause := by
  induction events using List.reverseRecOn with
  | nil => rfl
  | append_singleton past event ih =>
      have hpast := ih fun before op answer after hsplit =>
        hmay before op answer (after ++ [event]) (by rw [hsplit]; simp)
      obtain ⟨op, answer⟩ := event
      rw [sleeps_append]
      cases op with
      | sleep seconds =>
          have hseconds := (hmay past (.sleep seconds) answer [] rfl).2
          change sleeps past ++ [seconds] =
            (List.range (sleeps past ++ [seconds]).length).map config.pause
          rw [List.length_append, List.length_singleton, List.range_succ, List.map_append, ← hpast,
            hseconds]
          rfl
      | _ =>
          change sleeps past ++ [] = (List.range (sleeps past ++ []).length).map config.pause
          rw [List.append_nil]
          exact hpast

theorem callProtocol_of_mayCall (hretries : 0 ≤ config.maxRetriesOnTransientError) :
    CallProtocol config handle events where
  polls := by
    refine countP_le_limit isPoll _ events fun before event after hsplit hkind => ?_
    obtain ⟨op, answer⟩ := event
    cases op with
    | pollStatus other => exact (hmay before _ answer after hsplit).2.2
    | _ => cases hkind
  sleeps := sleeps_eq_pauses hmay
  fetched before other answer after hsplit := by
    obtain ⟨hother, -, -, hfinished⟩ := hmay before _ answer after hsplit
    exact ⟨hother, hfinished⟩
  fetches := by
    have hle : fetches events ≤ (config.maxRetriesOnTransientError + 1).toNat := by
      refine countP_le_limit isFetch _ events fun before event after hsplit hkind => ?_
      obtain ⟨op, answer⟩ := event
      cases op with
      | fetchResult other =>
          have hleft : ((before.countP isFetch : Nat) : Int) ≤ config.maxRetriesOnTransientError :=
            (hmay before _ answer after hsplit).2.2.1
          omega
      | _ => cases hkind
    omega
  cancels := by
    refine countP_le_limit isCancel _ events fun before event after hsplit hkind => ?_
    obtain ⟨op, answer⟩ := event
    cases op with
    | cancel other =>
        have hnone : before.countP isCancel = 0 := (hmay before _ answer after hsplit).2
        omega
    | _ => cases hkind
  quiet before other answer after hsplit event hmem := by
    obtain ⟨between, rest, rfl⟩ := List.append_of_mem hmem
    obtain ⟨op, value⟩ := event
    have hcall := hmay (before ++ ⟨.cancel other, answer⟩ :: between) op value rest (by
      rw [hsplit, List.append_assoc, List.cons_append])
    have hcancelled : cancels (before ++ ⟨.cancel other, answer⟩ :: between) ≠ 0 := by
      have hone : cancels (⟨.cancel other, answer⟩ :: between) = cancels between + 1 :=
        List.countP_cons_of_pos rfl
      rw [cancels_append, hone]
      omega
    cases op with
    | submit circuit => exact absurd hcall id
    | pollStatus named => exact absurd hcall.2.1 hcancelled
    | fetchResult named => exact absurd hcall.2.1 hcancelled
    | cancel named => exact absurd hcall.2 hcancelled
    | _ => rfl

end observed

section runs

variable {config : PollingConfig} {handle : JobHandle} {fuel : Nat} {clock : ℚ}
  {events : List (Event sig)}

theorem admits_calling (hclock : clocked.Admits clock events)
    (hcancel : ∀ other answer, (⟨.cancel other, answer⟩ : Event sig) ∈ events →
      answer = Except.ok ()) : (calling config handle fuel clock).Admits [] events := by
  refine Monitor.admits_recording fun before op answer after hsplit => ?_
  rw [hsplit] at hclock
  refine ⟨((Monitor.admits_append _ _ _).mp hclock).2.1, ?_⟩
  cases op with
  | cancel other => exact hcancel other answer (by rw [hsplit]; simp)
  | _ => trivial

-- Whatever the backend answered, some answer is always possible.
theorem exists_mayAnswer (past : List (Event sig)) (op : Effect) (hop : op ≠ .hang) :
    ∃ answer, MayAnswer clock past op answer := by
  cases op with
  | publish queue message => exact ⟨Outcome.returned, trivial, trivial⟩
  | declareQueue name => exact ⟨Outcome.returned, trivial, trivial⟩
  | ack => exact ⟨Outcome.returned, trivial, trivial⟩
  | sleep seconds => exact ⟨(), trivial, trivial⟩
  | utcnow => exact ⟨(0 : Int), trivial, trivial⟩
  | monotonic => exact ⟨clocked.after clock past, le_refl _, trivial⟩
  | cancelled => exact ⟨false, trivial, trivial⟩
  | submit circuit => exact ⟨.error (Exc.runtimeError ""), trivial, trivial⟩
  | pollStatus other => exact ⟨.error (Exc.runtimeError ""), trivial, trivial⟩
  | fetchResult other => exact ⟨.error (Exc.runtimeError ""), trivial, trivial⟩
  | cancel other => exact ⟨.ok (), trivial, rfl⟩
  | calibrationGet name => exact ⟨.ok none, trivial, trivial⟩
  | calibrationSave result => exact ⟨Outcome.returned, trivial, trivial⟩
  | triggerSet => exact ⟨(), trivial, trivial⟩
  | triggerClear => exact ⟨(), trivial, trivial⟩
  | triggerWait timeout => exact ⟨true, trivial, trivial⟩
  | kafkaSend topic payload => exact ⟨Outcome.returned, trivial, trivial⟩
  | handleMessage => exact ⟨(), trivial, trivial⟩
  | hang => exact absurd rfl hop

-- The job still runs, and is asked for again after the pause.
theorem poll_pending {start interval next : ℚ} {retries : Int} {waiting : Waiting} (now : ℚ)
    {again : ℚ → Int → Waiting → Program sig (Except Exc ExperimentResult × Waiting)}
    (hintime : ¬ now - start > config.timeout)
    (hnext : min (interval * config.backoffFactor) config.maxInterval = next)
    {outcome : Except Exc ExperimentResult × Waiting}
    (hagain : (again next retries waiting).Returns events outcome) :
    (poll handle config start interval retries waiting again).Returns
      (⟨.monotonic, now⟩ :: ⟨.pollStatus handle, .ok .running⟩ :: ⟨.sleep interval, ()⟩ :: events)
      outcome := by
  rw [poll_eq]
  refine @Program.Trace.step sig _ .monotonic _ now _ _ ?_
  rw [if_neg hintime]
  refine .step _ _ _ (.step _ _ _ ?_)
  rw [hnext]
  exact hagain

-- Every wait, ended or not: the calls it has made so far, that it ends, and how.
-- With exact sleeps and calls that take no time the sleeps are all of its time.
theorem waitForResult_callProtocol (fuel : Nat) (backendName : String) (handle : JobHandle)
    (config : PollingConfig) (breaker : CircuitBreaker) (token : Bool)
    (metrics : Option PollingMetrics) (hvalid : config.Valid) (clock : ℚ)
    (events : List (Event sig)) (rest : Program sig (Except Exc ExperimentResult × Waiting))
    (htrace : (waitForResult fuel backendName handle config breaker token metrics).Trace events rest)
    (hclock : clocked.Admits clock events)
    (hcancel : ∀ other answer, (⟨.cancel other, answer⟩ : Event sig) ∈ events →
      answer = Except.ok ()) :
    CallProtocol config handle events ∧
    (config.turns < fuel → (∀ next, rest ≠ .call .hang next) ∧
      ∃ more outcome, rest.Returns more outcome) ∧
    ∀ outcome, rest = .ret outcome →
      (cancels events = 1 ↔
        TimedOut config handle events outcome.1 ∨ CancelledByCaller handle events outcome.1) ∧
      (stopwatch.Admits clock events →
        (sleeps events).sum ≤ config.timeout + config.maxInterval) := by
  have hadmits := @admits_calling config handle fuel clock events hclock hcancel
  obtain ⟨hallows, hrest⟩ := (@waitForResult_calls config handle clock hvalid fuel backendName
    breaker token metrics).trace htrace hadmits
  have hpast : ∀ before, (calling config handle fuel clock).after [] before = before :=
    fun before => (Monitor.after_recording [] before).trans (List.nil_append before)
  have hmay : ∀ before op answer after, events = before ++ ⟨op, answer⟩ :: after →
      MayCall config handle fuel before op := by
    intro before op answer after hsplit
    rw [hsplit] at hallows
    have hcall := hallows.at
    rw [hpast] at hcall
    exact hcall
  have hprotocol := callProtocol_of_mayCall hmay hvalid.retries
  rw [hpast] at hrest
  refine ⟨hprotocol, fun hfuel => ?_, fun outcome hended => ?_⟩
  · have hcall : ∀ past op, MayCall config handle fuel past op → op ≠ .hang := by
      rintro past op hop rfl
      exact absurd hop (not_le.mpr hfuel)
    constructor
    · rintro next rfl
      exact hcall events .hang hrest.1 rfl
    · obtain ⟨more, outcome, hreturns, -⟩ := Monitor.Obeys.completes
        (fun past op hop => exists_mayAnswer past op (hcall past op hop)) hrest
      exact ⟨more, outcome, hreturns⟩
  · subst hended
    have hone := hprotocol.cancels
    refine ⟨?_, hrest.2⟩
    rw [← hrest.1]
    omega

-- The third poll would come too late.
theorem waitForResult_callProtocol_late :
    let handle : JobHandle := ⟨"j1", "mock-hw"⟩
    let config : PollingConfig :=
      { initialInterval := 2, maxInterval := 4, backoffFactor := 2, timeout := 5 }
    let outcome : Except Exc ExperimentResult := .error (pollingTimeoutError handle 5)
    let events : List (Event sig) :=
      [⟨.monotonic, (0 : ℚ)⟩, ⟨.monotonic, (0 : ℚ)⟩, ⟨.pollStatus handle, .ok .running⟩,
        ⟨.sleep 2, ()⟩, ⟨.monotonic, (2 : ℚ)⟩, ⟨.pollStatus handle, .ok .running⟩, ⟨.sleep 4, ()⟩,
        ⟨.monotonic, (6 : ℚ)⟩, ⟨.cancel handle, .ok ()⟩]
    CallProtocol config handle events ∧ cancels events = 1 ∧
      (TimedOut config handle events outcome ∨ CancelledByCaller handle events outcome) ∧
      (sleeps events).sum ≤ 5 + 4 := by
  intro handle config outcome events
  have hvalid : config.Valid := by
    constructor <;> norm_num [config]
  have hlate : (poll handle config 0 4 0 (Waiting.polled (Waiting.polled (Waiting.polled {})))
      (pollLoop handle config false 0 1)).Returns [⟨.monotonic, (6 : ℚ)⟩, ⟨.cancel handle, .ok ()⟩]
        (outcome, Waiting.polled (Waiting.polled (Waiting.polled {}))) := by
    rw [poll_eq]
    refine @Program.Trace.step sig _ .monotonic _ (6 : ℚ) _ _ ?_
    rw [if_pos (by norm_num [config])]
    exact .step _ _ _ (.stop _)
  have hsecond := @poll_pending config handle _ 0 4 4 0 (Waiting.polled (Waiting.polled {})) 2
    (pollLoop handle config false 0 2) (by norm_num [config]) (by norm_num [config]) _ hlate
  have hfirst := @poll_pending config handle _ 0 2 4 0 (Waiting.polled {}) 0
    (pollLoop handle config false 0 3) (by norm_num [config]) (by norm_num [config]) _ hsecond
  have htrace : (waitForResult 4 "mock-hw" handle config {} false none).Trace events
      (.ret (outcome, Waiting.polled (Waiting.polled (Waiting.polled {})))) :=
    waitForResult_first "mock-hw" hfirst rfl
  have hclock : clocked.Admits 0 events :=
    ⟨le_refl _, le_refl _, trivial, trivial, le_of_eq (by norm_num [clocked]), trivial, trivial,
      le_of_eq (by norm_num [clocked]), trivial, trivial⟩
  have hstopwatch : stopwatch.Admits 0 events :=
    ⟨rfl, rfl, trivial, trivial, by norm_num [stopwatch], trivial, trivial,
      by norm_num [stopwatch], trivial, trivial⟩
  have hcancel : ∀ other answer, (⟨.cancel other, answer⟩ : Event sig) ∈ events →
      answer = Except.ok () := by
    intro other answer hmem
    simp only [events, List.mem_cons, List.not_mem_nil, or_false] at hmem
    rcases hmem with h | h | h | h | h | h | h | h | h <;> cases h
    rfl
  obtain ⟨hprotocol, -, hended⟩ := waitForResult_callProtocol 4 "mock-hw" handle config {} false none
    hvalid 0 events _ htrace hclock hcancel
  obtain ⟨hgivenUp, hsleeps⟩ := hended _ rfl
  exact ⟨hprotocol, rfl, hgivenUp.mp rfl, hsleeps hstopwatch⟩

end runs

end QuantumPlatform.Orchestrator
