import QuantumPlatform.Orchestrator.Probe
import QuantumPlatform.Orchestrator.Log.Theorems

namespace QuantumPlatform.Orchestrator

open Process Python QuantumPlatform.Core

section counts

theorem moveParity_sum (source destination : String) (state : Dict String Int × Int) :
    (moveParity source destination state).1.values.sum = state.1.values.sum := by
  obtain ⟨adjusted, remaining⟩ := state
  simp only [moveParity, Dict.sum_set]
  omega

theorem inject_sum {counts adjusted : Dict String Int} {rate : ℚ}
    (h : injectDemoParityErrors counts rate = .ok adjusted) :
    adjusted.values.sum = counts.values.sum := by
  unfold injectDemoParityErrors at h
  split_ifs at h
  rw [← Except.ok.inj h, moveParity_sum, moveParity_sum]

-- A quarter of 1024 shots is made odd, and none is lost.
example : (injectDemoParityErrors (Dict.ofList [("00", 512), ("11", 512)]) (1 / 4)).map
    (fun adjusted => (adjusted.values.sum, oddParity adjusted)) = .ok (1024, 256) := by
  decide +kernel

variable {rate : ℚ} {probe : ExperimentResult} {saved : CalibrationResult}

theorem probeCounts_sum {counts : Dict String Int} (h : probeCounts rate probe = .ok counts) :
    counts.values.sum = (probe.counts.getD ∅).values.sum := by
  unfold probeCounts at h
  simp only at h
  split_ifs at h
  · exact inject_sum h
  · rw [← Except.ok.inj h]

-- Only an invalid demo rate keeps a probe from being saved.
theorem probeCounts_error {exc : Exc} (h : probeCounts rate probe = .error exc) :
    DemoInvalid rate := by
  unfold probeCounts at h
  simp only at h
  split_ifs at h with hdemo
  · refine ⟨hdemo, fun hvalid => ?_⟩
    unfold injectDemoParityErrors at h
    rw [if_pos hvalid] at h
    cases h

theorem probeCounts_invalid (hinvalid : DemoInvalid rate) (probe : ExperimentResult) :
    ∃ exc, probeCounts rate probe = .error exc := by
  unfold probeCounts injectDemoParityErrors
  simp only
  rw [if_pos hinvalid.1, if_neg hinvalid.2]
  exact ⟨_, rfl⟩

theorem Computed.genuine (hcomputed : Computed rate probe saved) (hmeasured : Measured probe) :
    Genuine rate probe saved := by
  have htotal := probeCounts_sum hcomputed.counts
  refine ⟨hmeasured, htotal, fun hdemo => ?_, ?_⟩
  · have hcounts := hcomputed.counts
    unfold probeCounts at hcounts
    simp only at hcounts
    rw [if_neg (not_not_intro hdemo)] at hcounts
    exact (Except.ok.inj hcounts).symm
  · obtain ⟨-, counts, hcounts, hpositive⟩ := hmeasured
    have hnonzero : saved.counts.values.sum ≠ 0 := by
      rw [htotal, hcounts, Option.getD_some]
      omega
    rw [hcomputed.errorRate, probeTotal, if_neg hnonzero]

end counts

section saves

variable {rate : ℚ} {log : Log} {events : List (Event sig)}

-- Only a save adds to what is saved.
theorem saved_after (op : Effect) (answer : op.Ans) :
    (log.after op answer).saved = log.saved ∨ ∃ result, op = .calibrationSave result ∧
      (log.after op answer).saved = log.saved ++ [(log.fetched.getLast?, result)] := by
  cases op with
  | calibrationSave result => exact .inr ⟨result, rfl, Log.raisedBy_saved _ _⟩
  | submit circuit => cases answer <;> simp [Log.after]
  | pollStatus handle =>
      rcases answer with exc | status
      · simp [Log.after]
      · cases status <;> simp [Log.after]
  | fetchResult handle => cases answer <;> simp [Log.after]
  | cancel handle => cases answer <;> simp [Log.after]
  | calibrationGet name => cases answer <;> simp [Log.after]
  | kafkaSend topic payload => exact .inl (Log.raisedBy_saved _ _)
  | publish queue message =>
      exact .inl ((Log.brokenBy_saved _ _).trans (Log.report_saved _ _ _))
  | declareQueue name => exact .inl (Log.brokenBy_saved _ _)
  | ack => exact .inl (Log.brokenBy_saved _ _)
  | _ => exact .inl rfl

theorem fetched_after (op : Effect) (answer : op.Ans) :
    log.fetched ⊆ (log.after op answer).fetched := by
  have hkept : ∀ later : Log, later.fetched = log.fetched → log.fetched ⊆ later.fetched := by
    intro later hsame
    rw [hsame]
    exact List.Subset.refl _
  cases op with
  | fetchResult handle => cases answer <;> simp [Log.after]
  | submit circuit => cases answer <;> simp [Log.after]
  | pollStatus handle =>
      rcases answer with exc | status
      · simp [Log.after]
      · cases status <;> simp [Log.after]
  | cancel handle => cases answer <;> simp [Log.after]
  | calibrationGet name => cases answer <;> simp [Log.after]
  | calibrationSave result => exact hkept _ (Log.raisedBy_fetched _ answer)
  | kafkaSend topic payload => exact hkept _ (Log.raisedBy_fetched log answer)
  | publish queue message =>
      exact hkept _ ((Log.brokenBy_fetched _ answer).trans (Log.report_fetched log queue message))
  | declareQueue name => exact hkept _ (Log.brokenBy_fetched log answer)
  | ack => exact hkept _ (Log.brokenBy_fetched _ answer)
  | _ => exact List.Subset.refl _

-- One allowed step keeps what is saved sound.
theorem Log.Sound.after (hsound : log.Sound rate) (op : Effect) (answer : op.Ans)
    (hallowed : (probing rate).allowed log op) : (log.after op answer).Sound rate := by
  intro entry hmem
  have hfetched : log.fetched ⊆ (log.after op answer).fetched := fetched_after op answer
  rcases saved_after op answer with hsame | ⟨result, rfl, hadded⟩
  · rw [hsame] at hmem
    obtain ⟨hcomputed, hprobe⟩ := hsound entry hmem
    exact ⟨hcomputed, fun probe h => hfetched (hprobe probe h)⟩
  · rw [hadded] at hmem
    rcases List.mem_append.mp hmem with hold | hnew
    · obtain ⟨hcomputed, hprobe⟩ := hsound entry hold
      exact ⟨hcomputed, fun probe h => hfetched (hprobe probe h)⟩
    · rw [List.mem_singleton.mp hnew]
      exact ⟨hallowed, fun probe h => hfetched (List.mem_of_getLast? h)⟩

-- And so does a run of allowed steps.
theorem Log.Sound.run (hsound : log.Sound rate) (hallows : (probing rate).Allows log events) :
    ((probing rate).after log events).Sound rate := by
  induction events generalizing log with
  | nil => exact hsound
  | cons event rest ih => exact ih (hsound.after event.1 event.2 hallows.1) hallows.2

end saves

section cycle

variable {rate : ℚ} {log : Log}

theorem waitProbe_obeys (env : Env) (handle : JobHandle) :
    (probing rate).Obeys (fun later result => log.Waited handle later result) log
      (waitOnce env handle executionConfig).run := by
  have hallowed : (probing rate).Obeys (fun _ _ => True) log
      (waitOnce env handle executionConfig).run := by
    refine Monitor.Obeys.of_only ?_ (fun _ _ _ _ _ => trivial) (waitOnce_only env handle _) trivial
    intro current op _ hop
    cases op <;> trivial
  exact ((waitOnce_logs env executionConfig).meet hallowed (fun _ _ _ _ => trivial)
    fun _ _ _ => rfl).mono fun _ _ h => h.1

theorem Log.Waited.fetched {handle : JobHandle} {later : Log} {exc : Exc}
    (h : log.Waited handle later (.error exc)) :
    later.fetched = log.fetched ∧ later.saved = log.saved := by
  rcases h with ⟨-, rfl⟩ | ⟨-, rfl | rfl⟩
  · exact ⟨rfl, rfl⟩
  · exact ⟨rfl, rfl⟩
  · exact ⟨rfl, rfl⟩

-- A probe fetches one result and computes a row from it, or it fetches none,
-- or the demo hook raises.
def Probed (rate : ℚ) (log later : Log) : Except Exc CalibrationResult → Prop
  | .ok row => ∃ handle probe, later.fetched = log.fetched ++ [(handle, probe)] ∧
      later.saved = log.saved ∧ Computed rate probe row
  | .error _ => later.saved = log.saved ∧ (later.fetched = log.fetched ∨ DemoInvalid rate)

theorem runCalibration_obeys (env : Env) :
    (probing env.settings.calibrationDemoErrorRate).Obeys
      (Probed env.settings.calibrationDemoErrorRate log) log (runCalibration env).run := by
  refine ⟨trivial, fun submitted _ => ?_⟩
  cases submitted with
  | error exc =>
      exact ⟨Log.raised_saved log exc, .inl (Log.raised_fetched log exc)⟩
  | ok handle =>
      refine Py.obeys_bind (waitProbe_obeys env handle) ?_ ?_
      · intro later probe hlater
        obtain rfl : later = _ := hlater
        cases hcounts : probeCounts env.settings.calibrationDemoErrorRate probe with
        | error exc => exact ⟨rfl, .inr (probeCounts_error hcounts)⟩
        | ok counts =>
            refine ⟨trivial, fun timestamp _ => ?_⟩
            exact ⟨handle, probe, rfl, rfl, hcounts, rfl⟩
      · intro later exc hlater
        obtain ⟨hfetched, hsaved⟩ := hlater.fetched
        exact ⟨hsaved, .inl hfetched⟩

theorem Log.Settled.of_same {later : Log} (hsettled : log.Settled rate)
    (hfetched : later.fetched = log.fetched) (hsaved : later.saved = log.saved) :
    later.Settled rate := by
  unfold Log.Settled
  rw [hfetched, hsaved]
  exact hsettled

theorem Log.Settled.add {later : Log} (hsettled : log.Settled rate)
    (probe : JobHandle × ExperimentResult) (row : CalibrationResult)
    (hfetched : later.fetched = log.fetched ++ [probe])
    (hsaved : later.saved = log.saved ++ [(some probe, row)]) : later.Settled rate := by
  refine hsettled.imp_right fun hold other hmem => ?_
  rw [hfetched] at hmem
  rw [hsaved]
  rcases List.mem_append.mp hmem with hmem | hmem
  · obtain ⟨found, hfound⟩ := hold other hmem
    exact ⟨found, List.mem_append_left _ hfound⟩
  · rw [List.mem_singleton.mp hmem]
    exact ⟨row, List.mem_append_right _ (List.mem_singleton_self _)⟩

variable (env : Env)

theorem saveAndPublish_obeys (hsettled : log.Settled env.settings.calibrationDemoErrorRate) :
    (probing env.settings.calibrationDemoErrorRate).Obeys
      (fun later _ => later.Settled env.settings.calibrationDemoErrorRate) log
      (do
        let result ← runCalibration env
        calibrationSave result
        publishCalibrationResult result : Py sig Unit).run := by
  refine Py.obeys_bind (runCalibration_obeys env) ?_ ?_
  · rintro later row ⟨handle, probe, hfetched, hsaved, hcomputed⟩
    have hlast : later.fetched.getLast? = some (handle, probe) := by
      rw [hfetched, List.getLast?_concat]
    have hadded : ∀ outcome, (later.after (.calibrationSave row) outcome).Settled
        env.settings.calibrationDemoErrorRate := by
      intro outcome
      refine hsettled.add (handle, probe) row ((Log.raisedBy_fetched _ outcome).trans hfetched) ?_
      rw [← hsaved, ← hlast]
      exact Log.raisedBy_saved _ outcome
    refine ⟨⟨handle, probe, hlast, hcomputed⟩, fun outcome _ => ?_⟩
    cases outcome with
    | raised exc stored => exact hadded (.raised exc stored)
    | returned =>
        refine ⟨trivial, fun sent _ => ?_⟩
        have hsent := (hadded .returned).of_same (Log.raisedBy_fetched _ sent)
          (Log.raisedBy_saved _ sent)
        cases sent with
        | returned => exact hsent
        | raised exc stored => exact hsent
  · rintro later exc ⟨hsaved, hfetched | hinvalid⟩
    · exact hsettled.of_same hfetched hsaved
    · exact .inl hinvalid

theorem calibrationCycle_obeys (hsettled : log.Settled env.settings.calibrationDemoErrorRate) :
    (probing env.settings.calibrationDemoErrorRate).Obeys
      (fun later _ => later.Settled env.settings.calibrationDemoErrorRate) log
      (calibrationCycle env).run := by
  refine ⟨trivial, fun _ _ => ?_⟩
  refine Py.obeys_bind (Py.obeys_suppressed (saveAndPublish_obeys env hsettled)) ?_
    fun later exc hlater => hlater
  intro later value hlater
  exact ⟨trivial, fun _ _ => hlater⟩

theorem runCalibrationLoop_obeys (cycles : Nat)
    (hsettled : log.Settled env.settings.calibrationDemoErrorRate) :
    (probing env.settings.calibrationDemoErrorRate).Obeys
      (fun later _ => later.Settled env.settings.calibrationDemoErrorRate) log
      (runCalibrationLoop env cycles).run := by
  induction cycles generalizing log with
  | zero => exact hsettled
  | succ cycles ih =>
      exact Py.obeys_bind (calibrationCycle_obeys env hsettled)
        (fun later _ hlater => ih hlater) fun later exc hlater => hlater

end cycle

section honesty

variable {rate : ℚ} {log : Log}

theorem Saved.Genuine.honest {entry : Saved} (hgenuine : Saved.Genuine rate entry) :
    Saved.Honest rate entry := by
  refine ⟨hgenuine, fun _ _ _ => ?_⟩
  obtain ⟨handle, probe, hentry, hprobe⟩ := hgenuine
  exact ⟨handle, probe, hentry, hprobe.measured⟩

theorem Log.Sound.honest (hsound : log.Sound rate)
    (hmeasured : DemoInvalid rate ∨ ∀ probe ∈ log.fetched, Measured probe.2) :
    ∀ entry ∈ log.saved, Saved.Honest rate entry := by
  intro entry hmem
  obtain ⟨⟨handle, probe, hentry, hcomputed⟩, hfetched⟩ := hsound entry hmem
  rcases hmeasured with hinvalid | hmeasured
  · obtain ⟨exc, hraises⟩ := probeCounts_invalid hinvalid probe
    rw [hcomputed.counts] at hraises
    cases hraises
  · have hprobe : Measured probe := hmeasured _ (hfetched _ hentry)
    exact Saved.Genuine.honest ⟨handle, probe, hentry, hcomputed.genuine hprobe⟩

theorem Log.Settled.measured (hsettled : log.Settled rate)
    (hhonest : ∀ entry ∈ log.saved, Saved.Honest rate entry) :
    DemoInvalid rate ∨ ∀ probe ∈ log.fetched, Measured probe.2 := by
  refine hsettled.imp_right fun hsaved probe hmem => ?_
  obtain ⟨row, hrow⟩ := hsaved probe hmem
  obtain ⟨handle, measured, hentry, hgenuine⟩ := (hhonest _ hrow).1
  obtain rfl := Option.some.inj hentry
  exact hgenuine.measured

-- In any run of the loop what is saved is sound, and all is settled once its cycles are done.
theorem runCalibrationLoop_logs (env : Env) (cycles : Nat) {events : List (Event sig)}
    {rest : Program sig (Except Exc Unit)}
    (htrace : (runCalibrationLoop env cycles).run.Trace events rest) :
    (logOf events).Sound env.settings.calibrationDemoErrorRate ∧
      ∀ result, rest = .ret result →
        (logOf events).Settled env.settings.calibrationDemoErrorRate := by
  have hempty : Log.Settled env.settings.calibrationDemoErrorRate {} := .inr (by simp)
  have hadmits : (probing env.settings.calibrationDemoErrorRate).Admits {} events :=
    Monitor.admits_all (fun _ _ _ => trivial) _ _
  have hafter : (probing env.settings.calibrationDemoErrorRate).after {} events = logOf events :=
    @Monitor.after_eq _ _ logging (probing _) (fun _ _ _ => rfl) {} events
  obtain ⟨hallows, hrest⟩ := (runCalibrationLoop_obeys env cycles hempty).trace htrace hadmits
  have hsound := Log.Sound.run (by simp [Log.Sound]) hallows
  rw [hafter] at hrest hsound
  refine ⟨hsound, ?_⟩
  rintro result rfl
  exact hrest

-- Whatever the loop saves is honest if every probe it fetched measured
-- something, and once a run has finished its cycles only then.
theorem calibration_saves_honest (env : Env) (cycles : Nat) (events : List (Event sig))
    (rest : Program sig (Except Exc Unit))
    (htrace : (runCalibrationLoop env cycles).run.Trace events rest) :
    ((DemoInvalid env.settings.calibrationDemoErrorRate ∨
        ∀ probe ∈ (logOf events).fetched, Measured probe.2) →
      ∀ entry ∈ (logOf events).saved,
        Saved.Honest env.settings.calibrationDemoErrorRate entry) ∧
    ∀ result, rest = .ret result →
      (∀ entry ∈ (logOf events).saved,
        Saved.Honest env.settings.calibrationDemoErrorRate entry) →
      (DemoInvalid env.settings.calibrationDemoErrorRate ∨
        ∀ probe ∈ (logOf events).fetched, Measured probe.2) := by
  obtain ⟨hsound, hsettled⟩ := runCalibrationLoop_logs env cycles htrace
  exact ⟨hsound.honest, fun result hrest hhonest =>
    Log.Settled.measured (hsettled result hrest) hhonest⟩

end honesty

section example_run

variable (env : Env) (hfuel : 0 < env.fuel) (handle : JobHandle) (probe : ExperimentResult)
  (hended : probe.status = .completed ∨ probe.status = .failed) {counts : Dict String Int}
  (hcounts : probeCounts env.settings.calibrationDemoErrorRate probe = .ok counts)

include hfuel hended hcounts

theorem runCalibration_returns (timestamp : Int) :
    ∃ row, Computed env.settings.calibrationDemoErrorRate probe row ∧ row.timestamp = timestamp ∧
      (runCalibration env).run.Returns
        [⟨.submit ⟨"calibration-bell", 2, buildBellCircuit, .int DEFAULT_SHOTS⟩, .ok handle⟩,
          ⟨.monotonic, (0 : ℚ)⟩, ⟨.monotonic, (0 : ℚ)⟩, ⟨.pollStatus handle, .ok probe.status⟩,
          ⟨.fetchResult handle, .ok probe⟩, ⟨.utcnow, timestamp⟩] (.ok row) := by
  refine ⟨⟨timestamp, env.settings.backendName, DEFAULT_SHOTS,
    (oddParity counts : ℚ) / probeTotal counts, counts⟩, ⟨hcounts, rfl⟩, rfl, ?_⟩
  refine .step _ _ _ ((Py.returns_bind _ _ _ _).mpr (.inr
    ⟨probe, _, [⟨.utcnow, timestamp⟩], rfl, waitOnce_fetches handle env hfuel probe hended, ?_⟩))
  rw [hcounts]
  exact .step _ _ _ (.stop _)

-- A probe is saved with whatever result it ends.
theorem calibration_saves_probe (timestamp : Int) :
    ∃ events row, (runCalibrationLoop env 1).run.Returns events (.ok ()) ∧
      Computed env.settings.calibrationDemoErrorRate probe row ∧
      logOf events =
        { submitted := [handle], fetched := [(handle, probe)], waits := 1,
          saved := [(some (handle, probe), row)] } := by
  obtain ⟨row, hcomputed, -, hprobe⟩ :=
    runCalibration_returns env hfuel handle probe hended hcounts timestamp
  have hsave : (calibrationSave row >>= fun _ => publishCalibrationResult row).run.Returns
      [⟨.calibrationSave row, .returned⟩, ⟨.kafkaSend CALIBRATION_TOPIC row.asdict, .returned⟩]
      (.ok ()) := .step _ _ _ (.step _ _ _ (.stop _))
  have hcycle : (calibrationCycle env).run.Returns _ (.ok ()) :=
    Py.returns_await () (Py.returns_then
      (Py.returns_uncaught (Py.returns_then hprobe hsave) fun _ h => by cases h)
      (Py.returns_await true (.stop _)))
  refine ⟨_, row, Py.returns_then hcycle (.stop _), hcomputed, ?_⟩
  rcases hended with hstatus | hstatus
  · rw [hstatus]
    rfl
  · rw [hstatus]
    rfl

omit hfuel hended hcounts in
-- Without demo errors the counts are taken as they are.
theorem probeCounts_zero : probeCounts 0 probe = .ok (probe.counts.getD ∅) := by
  unfold probeCounts
  rw [if_neg (by simp)]

end example_run

-- A completed probe whose two shots agree.
theorem calibration_saves_honest_agreeing : ∃ events row,
    (runCalibrationLoop ⟨{}, default, 1⟩ 1).run.Returns events (.ok ()) ∧
    (logOf events).saved =
      [(some (⟨"1", "aer-simulator"⟩, ⟨"1", .completed, some ⟨[("00", 2)], by simp⟩, none⟩), row)] ∧
    ∀ entry ∈ (logOf events).saved, Saved.Honest 0 entry := by
  obtain ⟨events, row, hreturns, -, hlog⟩ := calibration_saves_probe
    ⟨{}, default, 1⟩ Nat.one_pos ⟨"1", "aer-simulator"⟩
    ⟨"1", .completed, some ⟨[("00", 2)], by simp⟩, none⟩ (.inl rfl) (probeCounts_zero _) 0
  refine ⟨events, row, hreturns, by rw [hlog], ?_⟩
  refine (calibration_saves_honest _ _ _ _ hreturns).1 (.inr fun probe hmem => ?_)
  rw [hlog] at hmem
  rw [List.mem_singleton.mp hmem]
  exact ⟨rfl, _, rfl, by decide⟩

-- A dead backend looks perfectly calibrated: the FAILED result of the probe has
-- no counts, its row says that no error was seen, and the policy allows.
theorem calibration_saves_dishonest : ∃ events probe row,
    (runCalibrationLoop ⟨{}, default, 1⟩ 1).run.Returns events (.ok ()) ∧
    (some (⟨"1", "aer-simulator"⟩, probe), row) ∈ (logOf events).saved ∧
    probe.status = .failed ∧ probe.counts = none ∧
    ({} : CalibrationPolicy).evaluate (some row.observation) row.timestamp = .allow ∧
    ¬ Saved.Honest 0 (some (⟨"1", "aer-simulator"⟩, probe), row) := by
  obtain ⟨events, row, hreturns, hcomputed, hlog⟩ := calibration_saves_probe
    ⟨{}, default, 1⟩ Nat.one_pos ⟨"1", "aer-simulator"⟩ ⟨"1", .failed, none, none⟩ (.inr rfl)
    (probeCounts_zero _) 0
  refine ⟨events, _, row, hreturns, by rw [hlog]; exact List.mem_singleton_self _, rfl, rfl, ?_, ?_⟩
  · have hcounts : row.counts = ∅ := by
      have h := hcomputed.counts
      unfold probeCounts at h
      rw [if_neg (by simp)] at h
      exact (Except.ok.inj h).symm
    have hrate : row.errorRate = 0 := by
      rw [hcomputed.errorRate, hcounts]
      have hodd : oddParity ∅ = 0 := by decide
      rw [hodd, Int.cast_zero, zero_div]
    unfold CalibrationPolicy.evaluate CalibrationResult.observation
    norm_num [hrate]
  · rintro ⟨⟨handle, probe, hentry, hgenuine⟩, -⟩
    obtain ⟨rfl, rfl⟩ := Prod.mk.inj (Option.some.inj hentry)
    exact absurd hgenuine.measured.1 (by decide)

end QuantumPlatform.Orchestrator
