import QuantumPlatform.Orchestrator.Snapshot
import QuantumPlatform.Orchestrator.Probe.Theorems

namespace QuantumPlatform.Orchestrator

open Process Python QuantumPlatform.Core

section loop

variable {backendName : String} (env : Env) (hname : env.settings.backendName = backendName)
  (pending : Option Int)

include hname

-- A probe reads the time last of all.
theorem runCalibration_stamps :
    (stamping backendName).Obeys
      (fun pending result => ∀ row, result = .ok row →
        pending = some row.timestamp ∧ row.backendName = backendName)
      pending (runCalibration env).run := by
  refine ⟨trivial, fun submitted _ => ?_⟩
  cases submitted with
  | error exc => exact fun row h => by cases h
  | ok handle =>
      have hwait : (stamping backendName).Obeys (fun _ _ => True) pending
          (waitOnce env handle executionConfig).run := by
        refine Monitor.Obeys.of_only ?_ (fun _ _ _ _ _ => trivial)
          (waitOnce_watches env handle _) trivial
        intro current op _ hop
        cases op <;> trivial
      refine Py.obeys_bind hwait ?_ fun _ _ _ row h => by cases h
      intro later result _
      cases probeCounts env.settings.calibrationDemoErrorRate result with
      | error exc => exact fun row h => by cases h
      | ok counts =>
          refine ⟨trivial, fun timestamp _ row h => ?_⟩
          obtain rfl := Except.ok.inj h
          exact ⟨rfl, hname⟩

theorem calibrationCycle_stamps :
    (stamping backendName).Obeys (fun _ _ => True) pending (calibrationCycle env).run := by
  refine ⟨trivial, fun _ _ => ?_⟩
  have hprobe : (stamping backendName).Obeys (fun _ _ => True) pending
      (do
        let result ← runCalibration env
        calibrationSave result
        publishCalibrationResult result : Py sig Unit).run := by
    refine Py.obeys_bind (runCalibration_stamps env hname pending) ?_ fun _ _ _ => trivial
    intro later row hrow
    refine ⟨hrow row rfl, fun saved _ => ?_⟩
    cases saved with
    | raised exc stored => trivial
    | returned =>
        refine ⟨trivial, fun sent _ => ?_⟩
        cases sent <;> trivial
  exact Py.obeys_bind (Py.obeys_suppressed hprobe)
    (fun later value _ => ⟨trivial, fun _ _ => trivial⟩) fun _ _ _ => trivial

theorem runCalibrationLoop_stamps (cycles : Nat) :
    (stamping backendName).Obeys (fun _ _ => True) pending
      (runCalibrationLoop env cycles).run := by
  induction cycles generalizing pending with
  | zero => trivial
  | succ cycles ih =>
      exact Py.obeys_bind (calibrationCycle_stamps env hname pending)
        (fun later _ _ => ih later) fun _ _ _ => trivial

end loop

namespace Workers

variable {Worker : Type} {backendName : String} {labels : List (Label Worker)}
  {workers : Workers Worker} {worker : Worker} {op : Effect}

theorem saves_append (first second : List (Label Worker)) :
    saves (first ++ second) = saves first ++ saves second := List.filterMap_append

theorem readings_append (first second : List (Label Worker)) :
    readings (first ++ second) = readings first ++ readings second := List.filterMap_append

-- A worker's time was read at one point, and nothing of that worker came after it.
def Stamped (labels : List (Label Worker)) (worker : Worker) (time : Int) : Prop :=
  ∃ before between, labels = before ++ (worker, ⟨.utcnow, time⟩) :: between ∧
    ∀ label ∈ between, label.1 ≠ worker

theorem Stamped.other {time : Int} {label : Label Worker} (h : Stamped labels worker time)
    (hother : label.1 ≠ worker) : Stamped (labels ++ [label]) worker time := by
  obtain ⟨before, between, rfl, hquiet⟩ := h
  refine ⟨before, between ++ [label], by simp, fun other hmem => ?_⟩
  rcases List.mem_append.mp hmem with hold | hnew
  · exact hquiet other hold
  · rwa [List.mem_singleton.mp hnew]

-- A split of a list that has grown by one.
theorem split_concat {α : Type} {items before after : List α} {last item : α}
    (h : items ++ [last] = before ++ item :: after) :
    (∃ rest, items = before ++ item :: rest) ∨ items = before ∧ last = item := by
  rcases after.eq_nil_or_concat with rfl | ⟨rest, other, rfl⟩
  · obtain ⟨rfl, hlast⟩ := List.append_inj' h rfl
    exact .inr ⟨rfl, List.singleton_inj.mp hlast⟩
  · rw [List.concat_eq_append, ← List.cons_append, ← List.append_assoc] at h
    exact .inl ⟨rest, (List.append_inj' h rfl).1⟩

-- What is known after the labels of a run.
structure Known (backendName : String) (labels : List (Label Worker)) (workers : Workers Worker) :
    Prop where
  pending : ∀ worker, ∃ pending,
    (stamping backendName).Obeys (fun _ _ => True) pending (workers.loops worker) ∧
      ∀ time, pending = some time → Stamped labels worker time
  stamped : ∀ before other result outcome after,
    labels = before ++ (other, ⟨.calibrationSave result, outcome⟩) :: after →
      Stamped before other result.timestamp
  row : workers.store.rows.get? backendName = (saves labels).getLast?

-- What a step does to the table.
theorem storeAfter_eq (store : CalibrationStateStore) (worker : Worker) (op : Effect)
    (answer : op.Ans) :
    storeAfter store op answer = (stored (worker, ⟨op, answer⟩)).elim store store.save := by
  cases op with
  | calibrationSave result =>
      unfold storeAfter stored
      simp only
      split_ifs <;> rfl
  | _ => rfl

theorem stored_eq_some {label : Label Worker} {result : CalibrationResult}
    (h : stored label = some result) :
    ∃ outcome, label.2 = ⟨.calibrationSave result, outcome⟩ ∧ outcome.stored = true := by
  obtain ⟨worker, op, answer⟩ := label
  cases op with
  | calibrationSave saved =>
      unfold stored at h
      simp only at h
      split_ifs at h with hstored
      obtain rfl := Option.some.inj h
      exact ⟨answer, rfl, hstored⟩
  | _ => cases h

theorem saves_concat (labels : List (Label Worker)) (label : Label Worker) :
    saves (labels ++ [label]) = saves labels ++ (stored label).toList := by
  rw [saves_append]
  cases h : stored label with
  | none => simp [saves, h]
  | some result => simp [saves, h]

theorem row_storeAfter {store : CalibrationStateStore} {answer : op.Ans}
    (hname : ∀ result, stored (worker, ⟨op, answer⟩) = some result →
      result.backendName = backendName)
    (hrow : store.rows.get? backendName = (saves labels).getLast?) :
    (storeAfter store op answer).rows.get? backendName =
      (saves (labels ++ [(worker, ⟨op, answer⟩)])).getLast? := by
  rw [saves_concat, storeAfter_eq store worker]
  cases h : stored (worker, ⟨op, answer⟩) with
  | none => simpa using hrow
  | some result =>
      rw [Option.toList_some, List.getLast?_concat, ← hname result h]
      exact Dict.get?_set_self _ _ _

variable [DecidableEq Worker] {later : Workers Worker} {label : Label Worker}

-- One operation of one worker.
theorem Known.step (h : Known backendName labels workers) (hstep : Step workers label later) :
    Known backendName (labels ++ [label]) later := by
  obtain ⟨worker, op, next, answer, hloop⟩ := hstep
  obtain ⟨pending, hobeys, hpending⟩ := h.pending worker
  rw [hloop] at hobeys
  obtain ⟨hallowed, hnext⟩ := hobeys
  have hsaved : ∀ result, op = .calibrationSave result →
      pending = some result.timestamp ∧ result.backendName = backendName := by
    rintro result rfl
    exact hallowed
  have hstored : ∀ result, stored (worker, ⟨op, answer⟩) = some result →
      op = .calibrationSave result := by
    intro result hresult
    obtain ⟨outcome, hevent, -⟩ := stored_eq_some hresult
    exact congrArg Sigma.fst hevent
  constructor
  · intro other
    change ∃ pending, (stamping backendName).Obeys _ pending
      (Function.update workers.loops worker (next answer) other) ∧ _
    by_cases hother : other = worker
    · subst hother
      rw [Function.update_self]
      refine ⟨_, hnext answer trivial, fun time htime => ?_⟩
      cases op with
      | utcnow =>
          obtain rfl : answer = time := Option.some.inj htime
          exact ⟨labels, [], rfl, by simp⟩
      | _ => cases htime
    · obtain ⟨pending, hobeys, hpending⟩ := h.pending other
      rw [Function.update_of_ne hother]
      exact ⟨pending, hobeys, fun time htime => (hpending time htime).other (Ne.symm hother)⟩
  · intro before other result outcome after hsplit
    rcases split_concat hsplit with ⟨rest, hrest⟩ | ⟨rfl, hlast⟩
    · exact h.stamped before other result outcome rest hrest
    · obtain ⟨rfl, hevent⟩ := Prod.mk.inj hlast
      have hop : op = .calibrationSave result := congrArg Sigma.fst hevent
      exact hpending _ (hsaved result hop).1
  · exact row_storeAfter (fun result hresult => (hsaved result (hstored result hresult)).2) h.row

section runs

variable {envs : Worker → Env} {cycles : Worker → Nat}
  {transitions : List (Transition Worker)}
  (hname : ∀ worker, (envs worker).settings.backendName = backendName)

include hname

theorem known_run (run : Run (Traced Step) (start envs cycles) transitions workers) :
    Known backendName (Workers.labels transitions) workers := by
  induction run with
  | start =>
      refine ⟨fun worker => ⟨none, ?_, nofun⟩, ?_, rfl⟩
      · exact runCalibrationLoop_stamps (envs worker) (hname worker) none (cycles worker)
      · intro before other result outcome after hsplit
        simp [Workers.labels] at hsplit
  | @step transitions _ _ transition _ last ih =>
      obtain ⟨before, label, after⟩ := transition
      obtain ⟨rfl, rfl, hstep⟩ := last
      have hlabels : Workers.labels (transitions ++ [(before, label, after)]) =
          Workers.labels transitions ++ [label] := by simp [Workers.labels]
      rw [hlabels]
      exact ih.step hstep

end runs

section order

omit [DecidableEq Worker]

theorem saves_split {earlier rest : List CalibrationResult} {row : CalibrationResult}
    (h : saves labels = earlier ++ row :: rest) :
    ∃ before worker outcome after,
      labels = before ++ (worker, ⟨.calibrationSave row, outcome⟩) :: after ∧
      outcome.stored = true ∧ saves before = earlier := by
  obtain ⟨first, second, rfl, hfirst, hsecond⟩ := List.filterMap_eq_append_iff.mp h
  obtain ⟨quiet, ⟨worker, event⟩, after, rfl, hquiet, hrow, -⟩ :=
    List.filterMap_eq_cons_iff.mp hsecond
  obtain ⟨outcome, hevent, hstored⟩ := stored_eq_some hrow
  obtain rfl : event = ⟨.calibrationSave row, outcome⟩ := hevent
  refine ⟨first ++ quiet, worker, outcome, after, by simp, hstored, ?_⟩
  have hnone : saves quiet = [] := List.filterMap_eq_nil_iff.mpr hquiet
  rw [saves_append, hnone, List.append_nil]
  exact hfirst

-- On clocks that keep up and without overtaking, the times of the saved probes do not go back.
theorem Known.sorted (h : Known backendName labels workers) (hclock : ¬ Behind labels)
    (hnot : ¬ Overtaken labels) {earlier rest : List CalibrationResult} {row : CalibrationResult}
    (hsplit : saves labels = earlier ++ row :: rest) :
    ∀ other ∈ earlier, other.timestamp ≤ row.timestamp := by
  obtain ⟨before, worker, outcome, after, rfl, hstored, rfl⟩ := saves_split hsplit
  obtain ⟨first, between, rfl, hquiet⟩ := h.stamped before worker row outcome after rfl
  have hlanded : Landed (first ++ (worker, ⟨.utcnow, row.timestamp⟩) :: between ++
      (worker, ⟨.calibrationSave row, outcome⟩) :: after) first between row :=
    ⟨worker, outcome, after, by simp, hstored, hquiet⟩
  intro other hmem
  have hstamp : saves (first ++ (worker, ⟨.utcnow, row.timestamp⟩) :: between) =
      saves first ++ saves between := saves_append _ _
  rw [hstamp] at hmem
  rcases List.mem_append.mp hmem with hfirst | hbetween
  · exact not_lt.mp fun hlater => hclock ⟨first, between, row, hlanded, other, hfirst, hlater⟩
  · exact not_lt.mp fun hlater => hnot ⟨first, between, row, hlanded, other, hbetween, hlater⟩

theorem greatest_of_sorted {saved : List CalibrationResult}
    (h : ∀ earlier row rest, saved = earlier ++ row :: rest →
      ∀ other ∈ earlier, other.timestamp ≤ row.timestamp) :
    Greatest saved saved.getLast? := by
  rcases saved.eq_nil_or_concat with rfl | ⟨earlier, row, rfl⟩
  · rfl
  · rw [List.concat_eq_append, List.getLast?_concat]
    rw [List.concat_eq_append] at h
    refine ⟨List.mem_append_right _ (List.mem_singleton_self _), fun other hmem => ?_⟩
    rcases List.mem_append.mp hmem with hold | hnew
    · exact h earlier row [] rfl other hold
    · rw [List.mem_singleton.mp hnew]

end order

section latest

variable {envs : Worker → Env} {cycles : Worker → Nat}
  {transitions : List (Transition Worker)}

omit [DecidableEq Worker] in
theorem labels_append (first second : List (Transition Worker)) :
    Workers.labels (first ++ second) = Workers.labels first ++ Workers.labels second :=
  List.map_append

omit [DecidableEq Worker] in
theorem saves_labels_concat (before : List (Transition Worker)) (transition : Transition Worker) :
    saves (Workers.labels (before ++ [transition])) =
      saves (Workers.labels before) ++ (stored transition.2.1).toList := by
  rw [labels_append]
  exact saves_concat _ _

section landed

omit [DecidableEq Worker]

variable {before between : List (Label Worker)} {result : CalibrationResult}

theorem Landed.append (h : Landed labels before between result) (more : List (Label Worker)) :
    Landed (labels ++ more) before between result := by
  obtain ⟨worker, outcome, after, rfl, hrest⟩ := h
  exact ⟨worker, outcome, after ++ more, by simp, hrest⟩

-- Everything saved before it lands is saved before it.
theorem Landed.saves (h : Landed labels before between result) :
    ∃ worker outcome after, labels = before ++ (worker, ⟨.utcnow, result.timestamp⟩) :: between ++
        (worker, ⟨.calibrationSave result, outcome⟩) :: after ∧
      outcome.stored = true ∧ Workers.saves (before ++ (worker, ⟨.utcnow, result.timestamp⟩) ::
        between) = Workers.saves before ++ Workers.saves between := by
  obtain ⟨worker, outcome, after, hlabels, hstored, -⟩ := h
  exact ⟨worker, outcome, after, hlabels, hstored, saves_append _ _⟩

-- A probe that lands after a later one leaves the saves out of order.
theorem Landed.unsorted (h : Landed labels before between result) {newer : CalibrationResult}
    (hnewer : newer ∈ Workers.saves before ++ Workers.saves between)
    (hlt : result.timestamp < newer.timestamp) :
    ¬ (Workers.saves labels).Pairwise fun first second => first.timestamp ≤ second.timestamp := by
  obtain ⟨worker, outcome, after, rfl, hstored, hsaves⟩ := h.saves
  intro hsorted
  have hresult : result ∈ Workers.saves ((worker, ⟨.calibrationSave result, outcome⟩) :: after) :=
    List.mem_filterMap.mpr ⟨_, List.mem_cons_self .., if_pos hstored⟩
  rw [saves_append, hsaves] at hsorted
  have hle := (List.pairwise_append.mp hsorted).2.2 newer hnewer result hresult
  exact absurd hle (not_le.mpr hlt)

end landed

theorem Latest.not_late (hname : ∀ worker, (envs worker).settings.backendName = backendName)
    (run : Run (Traced Step) (start envs cycles) transitions workers)
    (hlatest : Latest backendName transitions) {before between : List (Label Worker)}
    {result newer : CalibrationResult}
    (hlanded : Landed (Workers.labels transitions) before between result)
    (hnewer : newer ∈ saves before ++ saves between) : newer.timestamp ≤ result.timestamp := by
  obtain ⟨worker, outcome, after, hsplit, hstored, hearlier⟩ := hlanded.saves
  obtain ⟨first, second, rfl, hfirst, hsecond⟩ := List.map_eq_append_iff.mp hsplit
  obtain ⟨transition, rest, rfl, hlabel, -⟩ := List.map_eq_cons_iff.mp hsecond
  have hgreatest := hlatest.greatest first transition rest rfl
  have hknown := known_run hname (Run.traced_split run).2.2
  have hsaves : saves (Workers.labels (first ++ [transition])) =
      saves (Workers.labels first) ++ [result] := by
    have hresult : stored transition.2.1 = some result := by
      rw [hlabel]
      exact if_pos hstored
    rw [saves_labels_concat, hresult, Option.toList_some]
  rw [hknown.row, hsaves, List.getLast?_concat] at hgreatest
  have hmem : newer ∈ saves (Workers.labels first) := by
    have hlabels : Workers.labels first = _ := hfirst
    rw [hlabels, hearlier]
    exact hnewer
  exact hgreatest.2 newer (List.mem_append_left _ hmem)

theorem latest_of_in_order
    (hname : ∀ worker, (envs worker).settings.backendName = backendName)
    (run : Run (Traced Step) (start envs cycles) transitions workers)
    (hclock : ¬ Behind (Workers.labels transitions))
    (hnot : ¬ Overtaken (Workers.labels transitions)) : Latest backendName transitions := by
  have hsorted : ∀ before transition after, transitions = before ++ transition :: after →
      ∀ earlier row rest, saves (Workers.labels (before ++ [transition])) = earlier ++ row :: rest →
        ∀ other ∈ earlier, other.timestamp ≤ row.timestamp := by
    rintro before transition after rfl earlier row rest hsplit
    rw [← List.singleton_append, ← List.append_assoc, labels_append] at hclock hnot
    refine (known_run hname (Run.traced_split run).2.2).sorted (fun hbehind => hclock ?_)
      (fun hovertaken => hnot ?_) hsplit
    · obtain ⟨first, between, result, hlanded, hnewer⟩ := hbehind
      exact ⟨first, between, result, hlanded.append _, hnewer⟩
    · obtain ⟨first, between, result, hlanded, hnewer⟩ := hovertaken
      exact ⟨first, between, result, hlanded.append _, hnewer⟩
  constructor
  · intro before transition after hsplit
    have hrun := hsplit ▸ run
    rw [(known_run hname (Run.traced_split hrun).2.2).row]
    exact greatest_of_sorted (hsorted before transition after hsplit)
  · intro transition hmem row hrow
    obtain ⟨before, after, hsplit⟩ := List.append_of_mem hmem
    obtain ⟨first, -, last⟩ := Run.traced_split (hsplit ▸ run)
    have hsaves := saves_labels_concat before transition
    have hlast := (known_run hname last).row
    rw [(known_run hname first).row] at hrow
    rw [hlast, hsaves]
    cases hstored : stored transition.2.1 with
    | none => exact ⟨row, by simpa using hrow, le_refl _⟩
    | some later =>
        refine ⟨later, by rw [Option.toList_some, List.getLast?_concat], ?_⟩
        rw [hstored] at hsaves
        exact hsorted before transition after hsplit _ later [] hsaves row
          (List.mem_of_getLast? hrow)

-- On one clock a probe that is stored before another one's time is read has read its own before.
theorem OneClock.not_behind
    (hname : ∀ worker, (envs worker).settings.backendName = backendName)
    (run : Run (Traced Step) (start envs cycles) transitions workers)
    (hclock : OneClock (Workers.labels transitions)) : ¬ Behind (Workers.labels transitions) := by
  rintro ⟨before, between, result, ⟨worker, outcome, after, hsplit, -⟩, newer, hnewer, hlt⟩
  obtain ⟨first, rest, hsaves⟩ := List.append_of_mem hnewer
  obtain ⟨earlier, other, saved, later, rfl, -⟩ := saves_split hsaves
  obtain ⟨past, quiet, rfl, -⟩ := (known_run hname run).stamped earlier other newer saved _
    (hsplit.trans (by rw [List.append_assoc, List.append_assoc, List.cons_append]))
  have hreadings : readings (Workers.labels transitions) = readings past ++ newer.timestamp ::
      readings quiet ++ readings later ++ result.timestamp :: readings between ++ readings after := by
    rw [hsplit, readings_append, readings_append, readings_append, readings_append]
    rfl
  rw [OneClock, hreadings] at hclock
  have hle := (List.pairwise_append.mp (List.pairwise_append.mp hclock).1).2.2 newer.timestamp
    (by simp) result.timestamp (List.mem_cons_self ..)
  exact absurd hle (not_le.mpr hlt)

-- However the probes and saves of the workers interleave and whatever their clocks read, the row
-- is the latest probe all along if and only if no stored probe has read a clock that was behind,
-- and none is overtaken by a later one. On one clock the first cannot happen, and with one worker
-- the second cannot.
theorem snapshot_latest_iff (backendName : String) (envs : Worker → Env) (cycles : Worker → Nat)
    (transitions : List (Transition Worker)) (workers : Workers Worker)
    (hname : ∀ worker, (envs worker).settings.backendName = backendName)
    (run : Run (Traced Step) (start envs cycles) transitions workers) :
    (Latest backendName transitions ↔
      ¬ Behind (Workers.labels transitions) ∧ ¬ Overtaken (Workers.labels transitions)) ∧
    (OneClock (Workers.labels transitions) → ¬ Behind (Workers.labels transitions)) ∧
    (Subsingleton Worker → ¬ Overtaken (Workers.labels transitions)) := by
  refine ⟨⟨fun hlatest => ⟨?_, ?_⟩, fun h => latest_of_in_order hname run h.1 h.2⟩,
    OneClock.not_behind hname run, ?_⟩
  · rintro ⟨before, between, result, hlanded, newer, hnewer, hlt⟩
    have hle := hlatest.not_late hname run hlanded (List.mem_append_left _ hnewer)
    exact absurd hle (not_le.mpr hlt)
  · rintro ⟨before, between, result, hlanded, newer, hnewer, hlt⟩
    have hle := hlatest.not_late hname run hlanded (List.mem_append_right _ hnewer)
    exact absurd hle (not_le.mpr hlt)
  · rintro _ ⟨before, between, result, ⟨worker, outcome, after, -, -, hquiet⟩, newer, hnewer, -⟩
    obtain ⟨label, hmem, -⟩ := List.mem_filterMap.mp hnewer
    exact hquiet label hmem (Subsingleton.elim _ _)

end latest

section example_run

-- One worker runs on alone, and saves nothing.
theorem run_alone {program rest : Program sig (Except Exc Unit)} {events : List (Event sig)}
    (htrace : program.Trace events rest) (hquiet : ∀ event ∈ events, stored (worker, event) = none)
    (workers : Workers Worker) (hloop : workers.loops worker = program) :
    Run Step workers (events.map (worker, ·))
      ⟨workers.store, Function.update workers.loops worker rest⟩ := by
  induction htrace generalizing workers with
  | stop program =>
      rw [← hloop, Function.update_eq_self]
      exact .start
  | @step op next answer events rest tail ih =>
      have run := ih (fun event hmem => hquiet event (List.mem_cons_of_mem _ hmem))
        ⟨storeAfter workers.store op answer, Function.update workers.loops worker (next answer)⟩
        (Function.update_self ..)
      have hstore : storeAfter workers.store op answer = workers.store := by
        rw [storeAfter_eq _ worker, hquiet _ (List.mem_cons_self ..)]
        rfl
      have hstep := Step.perform workers worker op next answer hloop
      rw [Function.update_idem, hstore] at run
      rw [hstore] at hstep
      exact .cons hstep run

-- A worker's loop from its start to the time of its first probe.
def probeEvents (now : Int) : List (Event sig) :=
  [⟨.triggerClear, ()⟩,
    ⟨.submit ⟨"calibration-bell", 2, buildBellCircuit, .int DEFAULT_SHOTS⟩,
      .ok ⟨"1", "aer-simulator"⟩⟩,
    ⟨.monotonic, (0 : ℚ)⟩, ⟨.monotonic, (0 : ℚ)⟩,
    ⟨.pollStatus ⟨"1", "aer-simulator"⟩, .ok .completed⟩,
    ⟨.fetchResult ⟨"1", "aer-simulator"⟩, .ok ⟨"1", .completed, none, none⟩⟩, ⟨.utcnow, now⟩]

theorem trace_save (now : Int) : ∃ row, row.timestamp = now ∧
    ∃ next, (runCalibrationLoop ⟨{}, default, 1⟩ 1).run.Trace (probeEvents now)
      (.call (.calibrationSave row) next) := by
  obtain ⟨row, -, htime, hprobe⟩ := runCalibration_returns ⟨{}, default, 1⟩ Nat.one_pos
    ⟨"1", "aer-simulator"⟩ ⟨"1", .completed, none, none⟩ (.inl rfl) (probeCounts_zero _) now
  refine ⟨row, htime, Py.trace_bind ?_⟩
  have hsave : ∃ next, (do
      let result ← runCalibration ⟨{}, default, 1⟩
      calibrationSave result
      publishCalibrationResult result : Py sig Unit).run.Trace (probeEvents now).tail
        (.call (.calibrationSave row) next) := by
    rw [Py.run_bind]
    exact ⟨_, hprobe.bind _⟩
  exact @Py.trace_await sig _ .triggerClear (.calibrationSave row) _ () _
    (Py.trace_bind (Py.trace_exceptException hsave))

omit [DecidableEq Worker] in
theorem probeEvents_quiet (now : Int) (worker : Worker) :
    ∀ event ∈ probeEvents now, stored (worker, event) = none := by
  intro event hmem
  simp only [probeEvents, List.mem_cons, List.not_mem_nil, or_false] at hmem
  rcases hmem with rfl | rfl | rfl | rfl | rfl | rfl | rfl <;> rfl

def twoWorkers : Workers Bool := start (fun _ => ⟨{}, default, 1⟩) (fun _ => 1)

-- The first worker has read the time 1 and the second the time 2, and both are
-- about to save.
theorem run_both : ∃ first second workers,
    first.timestamp = 1 ∧ second.timestamp = 2 ∧
    (∃ next, workers.loops true = .call (.calibrationSave first) next) ∧
    (∃ next, workers.loops false = .call (.calibrationSave second) next) ∧
    Run Step twoWorkers ((probeEvents 1).map (true, ·) ++ (probeEvents 2).map (false, ·))
      workers := by
  obtain ⟨first, hfirst, next, hnext⟩ := trace_save 1
  obtain ⟨second, hsecond, other, hother⟩ := trace_save 2
  have hrun := run_alone hnext (probeEvents_quiet 1 true) twoWorkers rfl
  have hboth := run_alone hother (probeEvents_quiet 2 false)
    ⟨{}, Function.update twoWorkers.loops true (.call (.calibrationSave first) next)⟩ rfl
  exact ⟨first, second, _, hfirst, hsecond, ⟨next, rfl⟩, ⟨other, rfl⟩, hrun.append hboth⟩

-- The second worker saves first, and the older probe of the first then replaces the newer one,
-- although the two read one clock.
theorem run_overtaken : ∃ (transitions : List (Transition Bool)) (workers : Workers Bool),
    Run (Traced Step) twoWorkers transitions workers ∧ OneClock (Workers.labels transitions) ∧
      Overtaken (Workers.labels transitions) := by
  obtain ⟨first, second, workers, hfirst, hsecond, ⟨next, hnext⟩, ⟨other, hother⟩, hrun⟩ := run_both
  have hsaved := hrun.step (.perform _ false (.calibrationSave second) _ Outcome.returned hother)
  have hreplaced := hsaved.step (.perform _ true (.calibrationSave first) _ Outcome.returned hnext)
  obtain ⟨transitions, hrecorded, hlabels⟩ := hreplaced.traced
  have hreadings : readings (Workers.labels transitions) = [1, 2] := by
    rw [Workers.labels, hlabels]
    rfl
  refine ⟨transitions, _, hrecorded, by rw [OneClock, hreadings]; decide, ?_⟩
  rw [Workers.labels, hlabels]
  refine ⟨(probeEvents 1).dropLast.map (true, ·),
    (probeEvents 2).map (false, ·) ++ [(false, ⟨.calibrationSave second, Outcome.returned⟩)], first,
    ⟨true, Outcome.returned, [], ?_, rfl, ?_⟩, second, ?_, ?_⟩
  · rw [hfirst]
    simp [probeEvents]
  · intro label hmem
    rcases List.mem_append.mp hmem with hprobe | hsave
    · obtain ⟨event, -, rfl⟩ := List.mem_map.mp hprobe
      exact Bool.false_ne_true
    · rw [List.mem_singleton.mp hsave]
      exact Bool.false_ne_true
  · rw [saves_concat]
    exact List.mem_append_right _ (List.mem_singleton_self _)
  · rw [hfirst, hsecond]
    decide

-- The claimed invariant fails there.
theorem not_snapshot_latest :
    ¬ ∀ (transitions : List (Transition Bool)) (workers : Workers Bool),
      Run (Traced Step) twoWorkers transitions workers → OneClock (Workers.labels transitions) →
        Latest "aer-simulator" transitions := by
  intro hlatest
  obtain ⟨transitions, workers, run, hclock, before, between, result, hlanded, newer, hnewer, hlt⟩ :=
    run_overtaken
  have hle := (hlatest transitions workers run hclock).not_late (fun _ => rfl) run hlanded
    (List.mem_append_right _ hnewer)
  exact absurd hle (not_le.mpr hlt)

-- The first worker saves before the second one does.
theorem snapshot_latest_in_order :
    ∃ (transitions : List (Transition Bool)) (workers : Workers Bool),
      Run (Traced Step) twoWorkers transitions workers ∧
      (saves (Workers.labels transitions)).map CalibrationResult.timestamp = [1, 2] ∧
      ¬ Behind (Workers.labels transitions) ∧ Latest "aer-simulator" transitions := by
  obtain ⟨first, second, workers, hfirst, hsecond, ⟨next, hnext⟩, ⟨other, hother⟩, hrun⟩ := run_both
  have hsaved := hrun.step (.perform _ true (.calibrationSave first) _ Outcome.returned hnext)
  have hboth := hsaved.step (.perform _ false (.calibrationSave second) _ Outcome.returned hother)
  obtain ⟨transitions, hrecorded, hlabels⟩ := hboth.traced
  have htimes : (saves (Workers.labels transitions)).map CalibrationResult.timestamp = [1, 2] := by
    rw [Workers.labels, hlabels, ← hfirst, ← hsecond]
    rfl
  have hreadings : readings (Workers.labels transitions) = [1, 2] := by
    rw [Workers.labels, hlabels]
    rfl
  have hsorted : (saves (Workers.labels transitions)).Pairwise
      fun first second => first.timestamp ≤ second.timestamp := by
    rw [← List.pairwise_map, htimes]
    decide
  have hlaw := snapshot_latest_iff "aer-simulator" _ _ transitions _ (fun _ => rfl) hrecorded
  have hbehind := hlaw.2.1 (by rw [OneClock, hreadings]; decide)
  refine ⟨transitions, _, hrecorded, htimes, hbehind, hlaw.1.mpr ⟨hbehind, ?_⟩⟩
  rintro ⟨before, between, result, hlanded, newer, hnewer, hlt⟩
  exact hlanded.unsorted (List.mem_append_right _ hnewer) hlt hsorted

end example_run

end Workers

end QuantumPlatform.Orchestrator
