import QuantumPlatform.Orchestrator.Trigger
import QuantumPlatform.Orchestrator.Log.Theorems
import QuantumPlatform.Process.Run
import Mathlib.Data.List.Induction

namespace QuantumPlatform.Orchestrator

open Process Python QuantumPlatform.Core

section loop

variable (env : Env)

-- The waiting, saving and publishing of a probe stay between its start and the
-- wait for the next cycle.
theorem runCalibration_cycles :
    cycling.Obeys (fun phase _ => phase = .probing) .cleared (runCalibration env).run := by
  refine ⟨trivial, fun submitted _ => ?_⟩
  cases submitted with
  | error exc => rfl
  | ok handle =>
      have hwait : cycling.Obeys (fun phase _ => phase = .probing) .probing
          (waitOnce env handle executionConfig).run := by
        refine Monitor.Obeys.of_only ?_ ?_ (waitOnce_watches env handle _) rfl
        · rintro phase op rfl hop
          cases op <;> trivial
        · rintro phase op rfl hop answer
          cases op <;> trivial
      refine Py.obeys_bind hwait ?_ fun phase exc hphase => hphase
      rintro phase result rfl
      cases probeCounts env.settings.calibrationDemoErrorRate result with
      | error exc => rfl
      | ok counts => exact ⟨trivial, fun timestamp _ => rfl⟩

theorem calibrationCycle_cycles :
    cycling.Obeys (fun phase result => ∀ value, result = .ok value → phase = .idle) .idle
      (calibrationCycle env).run := by
  refine ⟨trivial, fun _ _ => ?_⟩
  have hprobe : cycling.Obeys (fun phase _ => phase = .probing) .cleared
      (do
        let result ← runCalibration env
        calibrationSave result
        publishCalibrationResult result : Py sig Unit).run := by
    refine Py.obeys_bind (runCalibration_cycles env) ?_ fun phase exc hphase => hphase
    rintro phase result rfl
    refine ⟨trivial, fun saved _ => ?_⟩
    cases saved with
    | raised exc stored => rfl
    | returned =>
        refine ⟨trivial, fun sent _ => ?_⟩
        cases sent <;> rfl
  refine Py.obeys_bind (Py.obeys_suppressed hprobe) ?_ fun phase exc _ value h => by cases h
  rintro phase value rfl
  exact ⟨trivial, fun woken _ value _ => rfl⟩

theorem runCalibrationLoop_cycles (cycles : Nat) :
    cycling.Obeys (fun _ _ => True) .idle (runCalibrationLoop env cycles).run := by
  induction cycles with
  | zero => trivial
  | succ cycles ih =>
      refine Py.obeys_bind (calibrationCycle_cycles env) ?_ fun _ _ _ => trivial
      intro phase value hphase
      rw [hphase value rfl]
      exact ih

end loop

namespace CalibrationTask

section counting

variable {labels before current : List Label}

theorem requests_eq_zero (h : ∀ label ∈ labels, label.isClear = false) : requests labels = 0 := by
  rw [requests, cycles, List.splitOnP_eq_singleton h]
  rfl

-- The last cycle counts if the event was set during it.
theorem requests_current {label : Label} (hclear : label.isClear = true)
    (hcurrent : ∀ label ∈ current, label.isClear = false) :
    requests (before ++ label :: current) =
      requests before + if current.any Label.isSet then 1 else 0 := by
  have hne : before.splitOnP Label.isClear ≠ [] := List.splitOnP_ne_nil _ _
  rw [requests, cycles, List.splitOnP_append_cons _ _ hclear, List.splitOnP_eq_singleton hcurrent,
    List.tail_append_of_ne_nil hne, List.countP_append, List.countP_singleton]
  rfl

theorem countP_requested_le (labels : List Label) :
    (labels.splitOnP Label.isClear).countP (fun cycle => cycle.any Label.isSet) ≤ sets labels := by
  induction labels with
  | nil => simp [sets]
  | cons label rest ih =>
      rw [List.splitOnP_cons_eq_if_modifyHead]
      obtain ⟨first, others, hsplit⟩ := List.exists_cons_of_ne_nil
        (List.splitOnP_ne_nil Label.isClear rest)
      have hsets : sets (label :: rest) = sets rest + if label.isSet then 1 else 0 :=
        List.countP_cons
      rw [hsplit] at ih ⊢
      split_ifs
      · rw [List.countP_cons_of_neg (by simp)]
        omega
      · rw [List.countP_cons] at ih
        rw [List.modifyHead_cons, List.countP_cons, List.any_cons, hsets]
        cases label.isSet <;> simp_all; omega

theorem requests_le (labels : List Label) : requests labels ≤ sets labels :=
  ((List.tail_sublist _).countP_le).trans (countP_requested_le labels)

end counting

section tracking

variable {task later : CalibrationTask} {labels before current : List Label} {mark label : Label}

-- The cycle that `mark` began is not over yet: `current` has happened in it.
structure Inside (task : CalibrationTask) (labels before : List Label) (mark : Label)
    (current : List Label) : Prop where
  split : labels = before ++ mark :: current
  mark_isClear : mark.isClear = true
  quiet : ∀ label ∈ current, label.isClear = false
  requested : task.trigger = current.any Label.isSet
  bound : clears labels ≤ 1 + timeouts labels + requests before

theorem clears_append (labels : List Label) (label : Label) :
    clears (labels ++ [label]) = clears labels + if label.isClear then 1 else 0 := by
  rw [clears, List.countP_append, List.countP_singleton]
  rfl

theorem timeouts_append (labels : List Label) (label : Label) :
    timeouts (labels ++ [label]) = timeouts labels + if label.isTimeout then 1 else 0 := by
  rw [timeouts, List.countP_append, List.countP_singleton]
  rfl

theorem Inside.requests (h : Inside task labels before mark current) :
    requests labels = CalibrationTask.requests before + if task.trigger then 1 else 0 := by
  rw [h.split, requests_current h.mark_isClear h.quiet, h.requested]

theorem Inside.snoc (h : Inside task labels before mark current)
    (hclear : label.isClear = false) (htrigger : later.trigger = (task.trigger || label.isSet)) :
    Inside later (labels ++ [label]) before mark (current ++ [label]) where
  split := by rw [h.split, List.append_assoc, List.cons_append]
  mark_isClear := h.mark_isClear
  quiet other hmem := by
    rcases List.mem_append.mp hmem with hold | hnew
    · exact h.quiet other hold
    · rwa [List.mem_singleton.mp hnew]
  requested := by
    rw [htrigger, h.requested, List.any_append, List.any_cons, List.any_nil, Bool.or_false]
  bound := by
    have hbound := h.bound
    rw [clears_append, timeouts_append, hclear]
    simp only [Bool.false_eq_true, if_false]
    omega

theorem last_clear (labels : List Label) : (∀ label ∈ labels, label.isClear = false) ∨
    ∃ before mark current, labels = before ++ mark :: current ∧ mark.isClear = true ∧
      ∀ label ∈ current, label.isClear = false := by
  induction labels using List.reverseRecOn with
  | nil => exact .inl (by simp)
  | append_singleton labels label ih =>
      cases hclear : label.isClear with
      | true => exact .inr ⟨labels, label, [], rfl, hclear, by simp⟩
      | false =>
          have hquiet : ∀ current : List Label, (∀ other ∈ current, other.isClear = false) →
              ∀ other ∈ current ++ [label], other.isClear = false := by
            intro current hcurrent other hmem
            rcases List.mem_append.mp hmem with hold | hnew
            · exact hcurrent other hold
            · rwa [List.mem_singleton.mp hnew]
          rcases ih with hnone | ⟨before, mark, current, rfl, hbegin, hcurrent⟩
          · exact .inl (hquiet labels hnone)
          · exact .inr ⟨before, mark, current ++ [label], by simp, hbegin, hquiet _ hcurrent⟩

-- A request that comes when the loop has stopped waiting does not undo an earlier one.
theorem requests_set (labels : List Label) : requests labels ≤ requests (labels ++ [.set]) := by
  rcases last_clear labels with hnone | ⟨before, mark, current, rfl, hclear, hquiet⟩
  · rw [requests_eq_zero hnone]
    exact Nat.zero_le _
  · have hset : ∀ label ∈ current ++ [Label.set], label.isClear = false := by
      intro label hmem
      rcases List.mem_append.mp hmem with hold | hnew
      · exact hquiet label hold
      · rw [List.mem_singleton.mp hnew]
        rfl
    rw [List.append_assoc, List.cons_append, requests_current hclear hquiet,
      requests_current hclear hset, List.any_append]
    split_ifs <;> simp_all

-- What is known while the loop is in each of its phases.
def Tracks (labels : List Label) (task : CalibrationTask) : CyclePhase → Prop
  | .idle => labels.countP Label.isProbe = clears labels ∧
      clears labels ≤ timeouts labels + requests labels
  | .cleared => labels.countP Label.isProbe + 1 = clears labels ∧
      ∃ before mark current, Inside task labels before mark current
  | .probing => labels.countP Label.isProbe = clears labels ∧
      ∃ before mark current, Inside task labels before mark current ∧
        ∃ label ∈ current, label.isProbe = true

-- A request leaves the loop where it is.
theorem Tracks.set {phase : CyclePhase} (h : Tracks labels task phase) :
    Tracks (labels ++ [.set]) { task with trigger := true } phase := by
  have hclears : clears (labels ++ [.set]) = clears labels := clears_append labels .set
  have htimeouts : timeouts (labels ++ [.set]) = timeouts labels := timeouts_append labels .set
  have hprobes : (labels ++ [Label.set]).countP Label.isProbe = labels.countP Label.isProbe := by
    rw [List.countP_append]
    rfl
  have hinside : ∀ {before mark current}, Inside task labels before mark current →
      Inside { task with trigger := true } (labels ++ [.set]) before mark (current ++ [Label.set]) :=
    fun h => h.snoc rfl (Bool.or_true _).symm
  cases phase with
  | idle =>
      have hrequests := requests_set labels
      have hbound := h.2
      refine ⟨hprobes.trans (h.1.trans hclears.symm), ?_⟩
      rw [hclears, htimeouts]
      omega
  | cleared =>
      obtain ⟨hcount, before, mark, current, h⟩ := h
      refine ⟨?_, before, mark, _, hinside h⟩
      rw [hprobes, hclears, hcount]
  | probing =>
      obtain ⟨hcount, before, mark, current, h, label, hmem, hprobe⟩ := h
      refine ⟨?_, before, mark, _, hinside h, label, List.mem_append_left _ hmem, hprobe⟩
      rw [hprobes, hclears, hcount]

section perform

variable {trigger : Bool} {next : Program sig (Except Exc Unit)}

theorem Tracks.clear {loop : Program sig (Except Exc Unit)} (answer : Unit)
    (h : Tracks labels ⟨trigger, loop⟩ .idle) :
    Tracks (labels ++ [.loop ⟨.triggerClear, answer⟩]) ⟨false, next⟩ .cleared := by
  have hclears : clears (labels ++ [.loop ⟨.triggerClear, answer⟩]) = clears labels + 1 :=
    clears_append labels _
  have htimeouts : timeouts (labels ++ [.loop ⟨.triggerClear, answer⟩]) = timeouts labels :=
    timeouts_append labels _
  obtain ⟨hcount, hbound⟩ := h
  refine ⟨?_, labels, .loop ⟨.triggerClear, answer⟩, [], rfl, rfl, by simp, rfl, ?_⟩
  · rw [hclears, ← hcount, List.countP_append]
    rfl
  · omega

theorem Tracks.submit {loop : Program sig (Except Exc Unit)} {circuit : Core.Circuit}
    (answer : Except Exc Core.JobHandle) (h : Tracks labels ⟨trigger, loop⟩ .cleared) :
    Tracks (labels ++ [.loop ⟨.submit circuit, answer⟩]) ⟨trigger, next⟩ .probing := by
  obtain ⟨hcount, before, mark, current, hinside⟩ := h
  refine ⟨?_, before, mark, _, hinside.snoc rfl (Bool.or_false _).symm, _,
    List.mem_append_right _ (List.mem_singleton_self _), rfl⟩
  rw [clears_append, List.countP_append, ← hcount]
  rfl

theorem Tracks.wait {loop : Program sig (Except Exc Unit)} {timeout : ℚ} {woken : Bool}
    (hwoken : woken = true → trigger = true) (h : Tracks labels ⟨trigger, loop⟩ .probing) :
    Tracks (labels ++ [.loop ⟨.triggerWait timeout, woken⟩]) ⟨trigger, next⟩ .idle := by
  obtain ⟨hcount, before, mark, current, hinside, -⟩ := h
  have hlater : Inside ⟨trigger, next⟩ (labels ++ [.loop ⟨.triggerWait timeout, woken⟩]) before
      mark _ := hinside.snoc rfl (Bool.or_false _).symm
  have hrequests := hlater.requests
  have hbound := hinside.bound
  refine ⟨?_, ?_⟩
  · rw [clears_append, List.countP_append, hcount]
    rfl
  · rw [clears_append, timeouts_append, hrequests]
    cases woken with
    | true =>
        rw [hwoken rfl]
        simp [Label.isTimeout, Label.isClear]
        omega
    | false =>
        simp [Label.isTimeout, Label.isClear]
        omega

-- Any other operation of a probe.
theorem Tracks.quiet {loop : Program sig (Except Exc Unit)}
    (hclear : label.isClear = false) (hset : label.isSet = false) (hprobe : label.isProbe = false)
    (h : Tracks labels ⟨trigger, loop⟩ .probing) :
    Tracks (labels ++ [label]) ⟨trigger, next⟩ .probing := by
  obtain ⟨hcount, before, mark, current, hinside, other, hmem, hother⟩ := h
  refine ⟨?_, before, mark, _, hinside.snoc hclear (by rw [hset, Bool.or_false]), other,
    List.mem_append_left _ hmem, hother⟩
  rw [clears_append, List.countP_append, hcount, hclear]
  simp [hprobe]

end perform

end tracking

section runs

variable {env : Env} {count : Nat} {task : CalibrationTask} {labels : List Label}

theorem tracks_run (run : Run Step (start env count) labels task) :
    ∃ phase, cycling.Obeys (fun _ _ => True) phase task.loop ∧ Tracks labels task phase := by
  induction run with
  | start => exact ⟨.idle, runCalibrationLoop_cycles env count, rfl, Nat.zero_le _⟩
  | step _ last ih =>
      obtain ⟨phase, hobeys, htracks⟩ := ih
      cases last with
      | set => exact ⟨phase, hobeys, htracks.set⟩
      | perform trigger op next answer hanswer =>
          obtain ⟨hallowed, hnext⟩ := hobeys
          refine ⟨_, hnext answer trivial, ?_⟩
          cases phase with
          | idle =>
              cases op with
              | triggerClear => exact htracks.clear answer
              | _ => exact hallowed.elim
          | cleared =>
              cases op with
              | submit circuit => exact htracks.submit answer
              | _ => exact hallowed.elim
          | probing =>
              cases op with
              | triggerClear => exact hallowed.elim
              | triggerSet => exact hallowed.elim
              | submit circuit => exact hallowed.elim
              | triggerWait timeout => exact htracks.wait hanswer
              | _ => exact htracks.quiet rfl rfl rfl

-- While the event is unset, whatever has happened in the cycle came after every request.
theorem Inside.followed {before current : List Label} {mark label : Label}
    (h : Inside task labels before mark current) (hunset : task.trigger = false)
    (hmem : label ∈ current) {first after : List Label} (hsplit : labels = first ++ .set :: after) :
    label ∈ after := by
  have hnone : Label.set ∉ current := by
    intro hset
    have hany : current.any Label.isSet = true := List.any_eq_true.mpr ⟨.set, hset, rfl⟩
    rw [← h.requested, hunset] at hany
    cases hany
  have hmark : mark ≠ .set := by
    rintro rfl
    exact absurd h.mark_isClear (by decide)
  rcases List.append_eq_append_iff.mp (hsplit.symm.trans h.split) with
    ⟨between, -, hafter⟩ | ⟨between, -, hcurrent⟩
  · cases between with
    | nil => exact absurd (List.cons.inj hafter).1.symm hmark
    | cons _ between =>
        rw [(List.cons.inj hafter).2]
        exact List.mem_append_right _ (List.mem_cons_of_mem _ hmem)
  · cases between with
    | nil => exact absurd (List.cons.inj hcurrent).1 hmark
    | cons _ between =>
        refine absurd ?_ hnone
        rw [(List.cons.inj hcurrent).2]
        exact List.mem_append_right _ (List.mem_cons_self ..)

theorem probes_le {phase : CyclePhase} (hobeys : cycling.Obeys (fun _ _ => True) phase task.loop)
    (htracks : Tracks labels task phase) : task.probes labels ≤ clears labels := by
  have hcount : labels.countP Label.isProbe ≤ clears labels := by
    cases phase with
    | idle => exact htracks.1.le
    | cleared => exact (Nat.le_succ _).trans htracks.1.le
    | probing => exact htracks.1.le
  obtain ⟨trigger, loop⟩ := task
  cases loop with
  | ret value => exact hcount
  | call op next =>
      cases op with
      | submit circuit =>
          cases phase with
          | idle => exact hobeys.1.elim
          | cleared => exact htracks.1.le
          | probing => exact hobeys.1.elim
      | _ => exact hcount

theorem clears_le {phase : CyclePhase} (htracks : Tracks labels task phase) :
    clears labels ≤ 1 + timeouts labels + requests labels := by
  cases phase with
  | idle =>
      have hbound := htracks.2
      omega
  | cleared =>
      obtain ⟨-, before, mark, current, hinside⟩ := htracks
      have hbound := hinside.bound
      rw [hinside.requests]
      omega
  | probing =>
      obtain ⟨-, before, mark, current, hinside, -⟩ := htracks
      have hbound := hinside.bound
      rw [hinside.requests]
      omega

-- However the requests fall between the steps of the loop, none is lost, and
-- the requests of one cycle lead to one further probe at most.
theorem calibrationTask_coalesces (env : Env) (count : Nat) (labels : List Label)
    (task : CalibrationTask) (run : Run Step (start env count) labels task) :
    task.Coalesces labels := by
  obtain ⟨phase, hobeys, htracks⟩ := tracks_run run
  have honce := (probes_le hobeys htracks).trans (clears_le htracks)
  refine ⟨?_, honce.trans (Nat.add_le_add_left (requests_le labels) _), honce⟩
  rintro ⟨timeout, next, hparked⟩ hunset before after hsplit
  rw [hparked] at hobeys
  cases phase with
  | idle => exact hobeys.1.elim
  | cleared => exact hobeys.1.elim
  | probing =>
      obtain ⟨-, first, mark, current, hinside, label, hmem, hprobe⟩ := htracks
      exact ⟨label, hinside.followed hunset hmem hsplit, hprobe⟩

-- The backend does not take the circuit of a probe.
def probeFails : Label :=
  .loop ⟨.submit ⟨"calibration-bell", 2, buildBellCircuit, .int DEFAULT_SHOTS⟩,
    .error (Exc.runtimeError "down")⟩

-- One request before the first cycle and one during it: the failing probe is
-- made once more, and then the loop waits.
theorem calibrationTask_coalesces_woken : ∃ task,
    Run Step (start ⟨{}, default, 1⟩ 2)
      [.set, .loop ⟨.triggerClear, ()⟩, probeFails, .set, .loop ⟨.triggerWait 300, true⟩,
        .loop ⟨.triggerClear, ()⟩, probeFails] task ∧
    task.Parked ∧ task.trigger = false ∧
    task.Coalesces
      [.set, .loop ⟨.triggerClear, ()⟩, probeFails, .set, .loop ⟨.triggerWait 300, true⟩,
        .loop ⟨.triggerClear, ()⟩, probeFails] := by
  have hset : Run Step (start ⟨{}, default, 1⟩ 2) _ _ := .single (.set _)
  have hcleared : Run Step (start ⟨{}, default, 1⟩ 2) _ _ :=
    hset.step (.perform _ .triggerClear _ () trivial)
  have hfailed : Run Step (start ⟨{}, default, 1⟩ 2) _ _ :=
    hcleared.step (.perform _ (.submit _) _ (.error (Exc.runtimeError "down")) trivial)
  have hrequested : Run Step (start ⟨{}, default, 1⟩ 2) _ _ := hfailed.step (.set _)
  have hwoken : Run Step (start ⟨{}, default, 1⟩ 2) _ _ :=
    hrequested.step (.perform _ (.triggerWait 300) _ true fun _ => rfl)
  have hagain : Run Step (start ⟨{}, default, 1⟩ 2) _ _ :=
    hwoken.step (.perform _ .triggerClear _ () trivial)
  have hparked : Run Step (start ⟨{}, default, 1⟩ 2) _ _ :=
    hagain.step (.perform _ (.submit _) _ (.error (Exc.runtimeError "down")) trivial)
  exact ⟨_, hparked, ⟨300, _, rfl⟩, rfl, calibrationTask_coalesces _ _ _ _ hparked⟩

end runs

end CalibrationTask

end QuantumPlatform.Orchestrator
