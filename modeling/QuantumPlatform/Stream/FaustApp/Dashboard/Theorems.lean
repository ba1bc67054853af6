import QuantumPlatform.Stream.Alerting.Trace
import QuantumPlatform.Stream.FaustApp.Agreement
import QuantumPlatform.Stream.FaustApp.Dashboard
import QuantumPlatform.Stream.FaustApp.Drift
import Mathlib.Data.List.Dedup

namespace QuantumPlatform.Stream

open Process Python WindowTable

section announcements

-- The names in the order in which they are first met.
def firstSeen (names : List String) : List String := names.reverse.dedup.reverse

theorem firstSeen_concat (names : List String) (name : String) :
    firstSeen (names ++ [name]) =
      if name ∈ firstSeen names then firstSeen names else firstSeen names ++ [name] := by
  have hmem : name ∈ firstSeen names ↔ name ∈ names.reverse := by simp [firstSeen]
  simp only [hmem]
  unfold firstSeen
  rw [List.reverse_append, List.reverse_singleton, List.singleton_append]
  by_cases h : name ∈ names.reverse
  · rw [if_pos h, List.dedup_cons_of_mem h]
  · rw [if_neg h, List.dedup_cons_of_notMem h, List.reverse_cons]

-- The level that a backend was last announced with: every backend starts at OK.
def lastLevel (backendName : String) (announced : List (String × String)) : String :=
  let levelOf := fun name (announcement : String × String) =>
    if announcement.1 = name then some announcement.2 else none
  (Keyed.ownOf levelOf backendName announced).getLast?.getD AlertLevel.OK.value

theorem lastLevel_concat (backendName : String) (announced : List (String × String))
    (name level : String) : lastLevel backendName (announced ++ [(name, level)]) =
      if name = backendName then level else lastLevel backendName announced := by
  simp only [lastLevel, Keyed.ownOf_concat]
  by_cases hname : name = backendName
  · simp [hname]
  · simp [hname]

-- A level that is announced when it changes is the last one announced.
theorem lastLevel_moved {own : String} {announced : List (String × String)}
    {before after : AlertLevel} (h : before.value = lastLevel own announced) (other : String) :
    lastLevel other (announced ++
        (if after = before then none else some (own, after.value)).toList) =
      if other = own then after.value else lastLevel other announced := by
  by_cases hsame : after = before
  · rw [if_pos hsame, Option.toList, List.append_nil]
    by_cases hown : other = own
    · rw [if_pos hown, hown, ← h, hsame]
    · rw [if_neg hown]
  · rw [if_neg hsame, Option.toList, lastLevel_concat]
    by_cases hown : other = own
    · rw [if_pos hown, if_pos hown.symm]
    · rw [if_neg hown, if_neg (Ne.symm hown)]

end announcements

variable {𝕂 : Type} [Field 𝕂] [LinearOrder 𝕂]

-- The z-scores that a series of samples has been watched by: none while there is no spread.
def zscores (root : 𝕂 → 𝕂) (errorRates : List 𝕂) : List 𝕂 :=
  (alongside (fun seen errorRate => ((welford seen).zscore root errorRate).map abs)
    errorRates).filterMap id

section watch

variable {root : 𝕂 → 𝕂}

theorem zscores_concat (errorRates : List 𝕂) (errorRate : 𝕂) :
    zscores root (errorRates ++ [errorRate]) = zscores root errorRates ++
      (((welford errorRates).zscore root errorRate).map abs).toList := by
  unfold zscores
  rw [alongside_concat, List.filterMap_append]
  cases ((welford errorRates).zscore root errorRate).map abs with
  | none => simp
  | some z => simp

theorem watched_alert (backendName : String) (errorRates : List 𝕂) :
    (watched root backendName errorRates).1.alert =
      steps CalibrationTables.driftHysteresis backendName (zscores root errorRates) := by
  induction errorRates using List.reverseRecOn with
  | nil => rfl
  | append_singleton errorRates errorRate ih =>
      rw [watched_concat, zscores_concat]
      simp only [DriftWatch.step, watched_baseline]
      cases (welford errorRates).zscore root errorRate with
      | none => simpa using ih
      | some z => simp [steps_concat, ih]

-- What a sample is announced with: a level when it changes.
theorem DriftWatch.step_announced (backendName : String) (watch : DriftWatch 𝕂) (errorRate : 𝕂) :
    (watch.step root backendName errorRate).2.map (fun transition => transition.level) =
      if (watch.step root backendName errorRate).1.alert.level = watch.alert.level then none
      else some (watch.step root backendName errorRate).1.alert.level := by
  unfold DriftWatch.step
  cases watch.baseline.zscore root errorRate with
  | none => simp
  | some z =>
      simp only [step_emitted]
      split_ifs
      · rfl
      · rfl

theorem driftAlert_name {tables later : CalibrationTables 𝕂} {event : CalibrationEvent 𝕂}
    {alert : DriftAlertEvent 𝕂} (h : tables.driftAlert root event = .ok (later, some alert)) :
    alert.backendName = event.backendName := by
  unfold CalibrationTables.driftAlert at h
  cases hz : (tables.baselineStats.get event.backendName {}).zscore root event.errorRate with
  | none =>
      simp only [hz] at h
      cases h
  | some z =>
      simp only [hz] at h
      obtain ⟨state, -, hrest⟩ := bind_eq_ok.mp h
      have hpair := congrArg Prod.snd (Except.ok.inj hrest)
      obtain ⟨transition, -, rfl⟩ := Option.map_eq_some_iff.mp hpair
      rfl

end watch

variable [FloorRing 𝕂]

-- The averages that the flat alerts have been decided by, as the wall clock had them.
def wallClockMeans (deliveries : List (CalibrationDelivery 𝕂)) : List (String × 𝕂) :=
  alongside (fun seen delivery => (delivery.event.backendName, wallClockMean seen delivery))
    deliveries

def flatMeans (backendName : String) (deliveries : List (CalibrationDelivery 𝕂)) : List 𝕂 :=
  Keyed.ownOf sampleOf backendName (wallClockMeans deliveries)

section page

variable (root : 𝕂 → 𝕂) (flat drifted : List (CalibrationDelivery 𝕂)) (worker : FaustWorker 𝕂)

def alertLevels (alerts : List (AlertEvent 𝕂)) : List (String × String) :=
  alerts.map fun event => (event.backendName, event.level)

def driftAlertLevels (alerts : List (DriftAlertEvent 𝕂)) : List (String × String) :=
  alerts.map fun event => (event.backendName, event.level)

-- What a row says of its backend, once the samples of some deliveries are in the windows and
-- those of others in the baseline.
structure Shows (reads : PageReads 𝕂) (row : BackendState 𝕂) : Prop where
  count : row.windowSampleCount =
    (windowRates row.backendName (tumbling reads.countReadAt) flat).length
  average : row.windowAvg = if row.windowSampleCount = 0 then 0 else
    (windowRates row.backendName (tumbling reads.totalReadAt) flat).sum / row.windowSampleCount
  alertLevel : row.alertLevel = lastLevel row.backendName (alertLevels worker.alertsTopic)
  alertBreaches : row.alertConsecutiveBreaches =
    trailingBreaches defaultHysteresis (flatMeans row.backendName flat)
  alertOk : row.alertConsecutiveOk =
    trailingOk defaultHysteresis (flatMeans row.backendName flat)
  baselineCount : row.baselineCount = (Keyed.ownOf rateOf row.backendName drifted).length
  baselineMean : row.baselineMean = mean (Keyed.ownOf rateOf row.backendName drifted)
  baselineStddev : row.baselineStddev =
    root (sampleVariance (Keyed.ownOf rateOf row.backendName drifted))
  driftLevel : row.driftLevel =
    lastLevel row.backendName (driftAlertLevels worker.driftAlertsTopic)
  driftBreaches : row.driftConsecutiveBreaches = trailingBreaches
    CalibrationTables.driftHysteresis (zscores root (Keyed.ownOf rateOf row.backendName drifted))
  driftOk : row.driftConsecutiveOk = trailingOk
    CalibrationTables.driftHysteresis (zscores root (Keyed.ownOf rateOf row.backendName drifted))

-- An entry of the feed, without its time.
abbrev Announcement (𝕂 : Type) : Type := String × String × List (String × 𝕂)

def alertAnnouncement (event : AlertEvent 𝕂) : Announcement 𝕂 :=
  (event.backendName, event.level,
    [("window_avg", event.windowAvg), ("threshold", event.threshold)])

def driftAnnouncement (event : DriftAlertEvent 𝕂) : Announcement 𝕂 :=
  (event.backendName, event.level,
    [("zscore", event.zscore), ("error_rate", event.errorRate),
      ("baseline_mean", event.baselineMean), ("baseline_stddev", event.baselineStddev)])

def ofKind (kind : String) (feed : List (DashboardEvent 𝕂)) : List (Announcement 𝕂) :=
  (feed.filter fun event => decide (event.kind = kind)).map fun event =>
    (event.backendName, event.level, event.extra)

-- The feed shows the last of a series in which both topics are interleaved.
def Feeds (alerts : List (AlertEvent 𝕂)) (driftAlerts : List (DriftAlertEvent 𝕂))
    (recentEvents : List (DashboardEvent 𝕂)) : Prop :=
  ∃ announced, recentEvents = announced.reverse.take RECENT_EVENTS_MAXLEN ∧
    announced.length = alerts.length + driftAlerts.length ∧
    ofKind "alert" announced = alerts.map alertAnnouncement ∧
    ofKind "drift" announced = driftAlerts.map driftAnnouncement

structure PageLaw (clock : String → PageReads 𝕂) (page : DashboardState 𝕂) : Prop where
  backends : page.backends.map BackendState.backendName =
    firstSeen (flat.map fun delivery => delivery.event.backendName)
  rows : ∀ row ∈ page.backends, Shows root flat drifted worker (clock row.backendName) row
  feed : Feeds worker.alertsTopic worker.driftAlertsTopic page.recentEvents

-- The state of the worker after the flat path of some deliveries and the drift path of
-- others.
structure Stands : Prop where
  totals : Exact (fun delivery : CalibrationDelivery 𝕂 => delivery.event.backendName)
    (fun delivery => tumbling delivery.timestamp)
    (fun total delivery => total + delivery.event.errorRate) 0 worker.tables.errorRateSum flat
  counts : Exact (fun delivery : CalibrationDelivery 𝕂 => delivery.event.backendName)
    (fun delivery => tumbling delivery.timestamp) (fun count _ => count + 1) 0
    worker.tables.sampleCount flat
  alerts : Records worker.tables.alertState fun backendName =>
    steps defaultHysteresis backendName (flatMeans backendName flat)
  known : worker.tables.alertState.keys =
    firstSeen (flat.map fun delivery => delivery.event.backendName)
  watches : Watches worker.tables fun backendName =>
    (watched root backendName (Keyed.ownOf rateOf backendName drifted)).1
  alertLevels : ∀ backendName, (worker.tables.alertState.get backendName {}).level =
    lastLevel backendName (alertLevels worker.alertsTopic)
  driftLevels : ∀ backendName, (worker.tables.driftAlertState.get backendName {}).level =
    lastLevel backendName (driftAlertLevels worker.driftAlertsTopic)
  feeds : Feeds worker.alertsTopic worker.driftAlertsTopic worker.recentEvents.items

end page

section reads

variable {tables : CalibrationTables 𝕂} {deliveries : List (CalibrationDelivery 𝕂)}

theorem total_eq (h : Exact (fun delivery : CalibrationDelivery 𝕂 => delivery.event.backendName)
    (fun delivery => tumbling delivery.timestamp)
    (fun total delivery => total + delivery.event.errorRate) 0 tables.errorRateSum deliveries)
    (backendName : String) (window : Int) :
    tables.errorRateSum backendName window = (windowRates backendName window deliveries).sum := by
  rw [h, foldl_errorRate, zero_add]
  rfl

theorem count_eq (h : Exact (fun delivery : CalibrationDelivery 𝕂 => delivery.event.backendName)
    (fun delivery => tumbling delivery.timestamp) (fun count _ => count + 1) 0
    tables.sampleCount deliveries) (backendName : String) (window : Int) :
    tables.sampleCount backendName window =
      (windowRates backendName window deliveries).length := by
  rw [h, foldl_count, zero_add, windowRates, List.length_map]

end reads

section feed

variable {worker : FaustWorker 𝕂}

omit [Field 𝕂] [LinearOrder 𝕂] [FloorRing 𝕂] in
theorem ofKind_concat (kind : String) (feed : List (DashboardEvent 𝕂)) (event : DashboardEvent 𝕂) :
    ofKind kind (feed ++ [event]) = ofKind kind feed ++
      if event.kind = kind then [(event.backendName, event.level, event.extra)] else [] := by
  unfold ofKind
  by_cases h : event.kind = kind
  · simp [h]
  · simp [h]

variable (worker) in
omit [LinearOrder 𝕂] [FloorRing 𝕂] in
-- What an alert adds, if there is one.
theorem announced_alert (now : 𝕂) (alert : Option (AlertEvent 𝕂)) :
    let later := alert.elim worker (worker.announceAlert now)
    later.tables = worker.tables ∧ later.alertsTopic = worker.alertsTopic ++ alert.toList ∧
      later.driftAlertsTopic = worker.driftAlertsTopic ∧
      (Feeds worker.alertsTopic worker.driftAlertsTopic worker.recentEvents.items →
        Feeds later.alertsTopic later.driftAlertsTopic later.recentEvents.items) := by
  cases alert with
  | none => simp
  | some event =>
      refine ⟨rfl, rfl, rfl, fun ⟨announced, htake, hlength, halerts, hdrift⟩ => ?_⟩
      refine ⟨announced ++ [_], Deque.items_appendleft htake _, ?_, ?_, ?_⟩
      · simp only [Option.elim_some, FaustWorker.announceAlert, List.length_append,
          List.length_singleton, hlength]
        omega
      · rw [ofKind_concat, if_pos rfl, halerts]
        simp only [Option.elim_some, FaustWorker.announceAlert, List.map_append,
          List.map_singleton]
        rfl
      · rw [ofKind_concat, if_neg (by simp), List.append_nil]
        exact hdrift

variable (worker) in
omit [LinearOrder 𝕂] [FloorRing 𝕂] in
theorem announced_drift (now : 𝕂) (alert : Option (DriftAlertEvent 𝕂)) :
    let later := alert.elim worker (worker.announceDrift now)
    later.tables = worker.tables ∧ later.alertsTopic = worker.alertsTopic ∧
      later.driftAlertsTopic = worker.driftAlertsTopic ++ alert.toList ∧
      (Feeds worker.alertsTopic worker.driftAlertsTopic worker.recentEvents.items →
        Feeds later.alertsTopic later.driftAlertsTopic later.recentEvents.items) := by
  cases alert with
  | none => simp
  | some event =>
      refine ⟨rfl, rfl, rfl, fun ⟨announced, htake, hlength, halerts, hdrift⟩ => ?_⟩
      refine ⟨announced ++ [_], Deque.items_appendleft htake _, ?_, ?_, ?_⟩
      · simp only [Option.elim_some, FaustWorker.announceDrift, List.length_append,
          List.length_singleton, hlength]
        omega
      · rw [ofKind_concat, if_neg (by simp), List.append_nil]
        exact halerts
      · rw [ofKind_concat, if_pos rfl, hdrift]
        simp only [Option.elim_some, FaustWorker.announceDrift, List.map_append,
          List.map_singleton]
        rfl

end feed

section paths

variable {root : 𝕂 → 𝕂} {flat drifted : List (CalibrationDelivery 𝕂)} {worker : FaustWorker 𝕂}

theorem Stands.start : Stands root [] [] ({} : FaustWorker 𝕂) where
  totals := exact_nil
  counts := exact_nil
  alerts := fun _ => rfl
  known := rfl
  watches := fun _ => ⟨rfl, rfl⟩
  alertLevels := fun _ => rfl
  driftLevels := fun _ => rfl
  feeds := ⟨[], rfl, rfl, rfl, rfl⟩

theorem Stands.windowAvg (h : Stands root flat drifted worker) (delivery : CalibrationDelivery 𝕂) :
    (worker.tables.accumulate delivery).windowAvg delivery = wallClockMean flat delivery := by
  have htotal := @total_eq 𝕂 _ _ _ (worker.tables.accumulate delivery) _ (h.totals.update delivery)
  have hcount := @count_eq 𝕂 _ _ _ (worker.tables.accumulate delivery) _ (h.counts.update delivery)
  simp only [CalibrationTables.windowAvg, wallClockMean, htotal, hcount]
  by_cases hzero : (windowRates delivery.event.backendName (tumbling delivery.countReadAt)
      (flat ++ [delivery])).length = 0
  · rw [if_neg (not_not.mpr hzero), if_pos hzero]
  · rw [if_pos hzero, if_neg hzero]

theorem flatMeans_concat (backendName : String) (deliveries : List (CalibrationDelivery 𝕂))
    (delivery : CalibrationDelivery 𝕂) :
    flatMeans backendName (deliveries ++ [delivery]) = flatMeans backendName deliveries ++
      if delivery.event.backendName = backendName then [wallClockMean deliveries delivery]
      else [] := by
  unfold flatMeans wallClockMeans
  rw [alongside_concat, Keyed.ownOf_concat, sampleOf]
  by_cases hname : delivery.event.backendName = backendName
  · simp only [hname, if_true, Option.toList]
  · simp only [hname, if_false, Option.toList]

-- The tables between the two paths of an event.
def flatTables (worker : FaustWorker 𝕂) (flat : List (CalibrationDelivery 𝕂))
    (delivery : CalibrationDelivery 𝕂) : CalibrationTables 𝕂 :=
  let backendName := delivery.event.backendName
  let accumulated := worker.tables.accumulate delivery
  { accumulated with
    alertState := accumulated.alertState.set backendName (.ofState
      (steps defaultHysteresis backendName (flatMeans backendName (flat ++ [delivery])))) }

theorem Stands.flatPath_eq (h : Stands root flat drifted worker)
    (arrival : CalibrationArrival 𝕂) :
    let backendName := arrival.delivery.event.backendName
    let before := steps defaultHysteresis backendName (flatMeans backendName flat)
    let average := wallClockMean flat arrival.delivery
    let next := { worker with tables := flatTables worker flat arrival.delivery }
    worker.flatPath arrival =
      .ok (((step defaultHysteresis backendName before average).2.map AlertEvent.ofTransition).elim
        next (next.announceAlert arrival.alertStampedAt)) := by
  intro backendName before average next
  have hstored : (worker.tables.accumulate arrival.delivery).alertState.get backendName {} =
      .ofState before := h.alerts backendName
  have haverage : (worker.tables.accumulate arrival.delivery).windowAvg arrival.delivery = average :=
    h.windowAvg arrival.delivery
  have hmeans : flatMeans backendName (flat ++ [arrival.delivery]) =
      flatMeans backendName flat ++ [average] := by
    rw [flatMeans_concat, if_pos rfl]
  simp only [FaustWorker.flatPath, haverage, CalibrationTables.flatAlert_eq hstored, next,
    flatTables, backendName, hmeans, steps_concat]
  rfl

-- The flat path brings the windows and the alerts up to its event.
theorem Stands.flatPath (h : Stands root flat drifted worker) (arrival : CalibrationArrival 𝕂) :
    ∃ later, worker.flatPath arrival = .ok later ∧
      Stands root (flat ++ [arrival.delivery]) drifted later := by
  let delivery := arrival.delivery
  let backendName := delivery.event.backendName
  let before := steps defaultHysteresis backendName (flatMeans backendName flat)
  let average := wallClockMean flat delivery
  let after := (step defaultHysteresis backendName before average).1
  let next : FaustWorker 𝕂 := { worker with tables := flatTables worker flat delivery }
  have hmeans : steps defaultHysteresis backendName (flatMeans backendName (flat ++ [delivery])) =
      after := by
    rw [flatMeans_concat, if_pos rfl, steps_concat]
  have hown : next.tables.alertState.get backendName {} = .ofState after := by
    rw [← hmeans]
    exact Dict.get_set_self _ _ _ _
  have hother : ∀ other, other ≠ backendName → next.tables.alertState.get other {} =
      worker.tables.alertState.get other {} :=
    fun other hname => Dict.get_set_of_ne _ _ _ _ _ hname
  have halerts : Records next.tables.alertState fun other =>
      steps defaultHysteresis other (flatMeans other (flat ++ [delivery])) := by
    intro other
    by_cases hname : other = backendName
    · subst hname
      exact hown.trans (congrArg _ hmeans.symm)
    · have hkept : flatMeans other (flat ++ [delivery]) = flatMeans other flat := by
        rw [flatMeans_concat, if_neg (Ne.symm hname), List.append_nil]
      simp only [hkept]
      exact (hother other hname).trans (h.alerts other)
  have hknown : next.tables.alertState.keys =
      firstSeen ((flat ++ [delivery]).map fun delivery => delivery.event.backendName) := by
    rw [List.map_append, List.map_singleton, firstSeen_concat, ← h.known]
    exact Dict.keys_set _ _ _
  have hbefore : before.level.value =
      lastLevel backendName (Stream.alertLevels worker.alertsTopic) := by
    rw [← h.alertLevels backendName, h.alerts backendName]
    rfl
  let alert := (step defaultHysteresis backendName before average).2.map AlertEvent.ofTransition
  obtain ⟨htables, htopic, hdrift, hfeeds⟩ := announced_alert next arrival.alertStampedAt alert
  have hlevels : Stream.alertLevels (worker.alertsTopic ++ alert.toList) =
      Stream.alertLevels worker.alertsTopic ++ (if after.level = before.level then none
        else some (backendName, after.level.value)).toList := by
    have hemitted := @step_emitted 𝕂 _ defaultHysteresis backendName before average
    rw [Stream.alertLevels, List.map_append]
    simp only [alert, hemitted, after]
    split_ifs
    · rfl
    · rfl
  refine ⟨_, h.flatPath_eq arrival, ?_⟩
  change Stands root _ drifted (alert.elim next (next.announceAlert arrival.alertStampedAt))
  constructor
  · rw [htables]
    exact h.totals.update delivery
  · rw [htables]
    exact h.counts.update delivery
  · rw [htables]
    exact halerts
  · rw [htables]
    exact hknown
  · rw [htables]
    exact h.watches
  · intro other
    have hlast : lastLevel other (Stream.alertLevels (worker.alertsTopic ++ alert.toList)) =
        if other = backendName then after.level.value
        else lastLevel other (Stream.alertLevels worker.alertsTopic) := by
      rw [hlevels, lastLevel_moved hbefore]
    rw [htables, htopic, hlast]
    by_cases hname : other = backendName
    · rw [if_pos hname, hname, hown]
      rfl
    · rw [if_neg hname, hother other hname]
      exact h.alertLevels other
  · rw [htables, hdrift]
    exact h.driftLevels
  · exact hfeeds h.feeds

-- What the drift alert makes of the tables.
theorem Stands.driftAlert (h : Stands root flat drifted worker)
    (delivery : CalibrationDelivery 𝕂) :
    let backendName := delivery.event.backendName
    let watchOf := fun seen other => (watched root other (Keyed.ownOf rateOf other seen)).1
    let before := (watchOf drifted backendName).alert.level
    let after := (watchOf (drifted ++ [delivery]) backendName).alert.level
    ∃ tables alert, worker.tables.driftAlert root delivery.event = .ok (tables, alert) ∧
      (tables.errorRateSum = worker.tables.errorRateSum ∧
        tables.sampleCount = worker.tables.sampleCount ∧
        tables.alertState = worker.tables.alertState) ∧
      Watches tables (watchOf (drifted ++ [delivery])) ∧
      driftAlertLevels alert.toList =
        (if after = before then none else some (backendName, after.value)).toList := by
  intro backendName watchOf before after
  obtain ⟨tables, alert, hrun, hadvanced, hlevels⟩ := h.watches.driftAlert root delivery
  rw [watched_advance] at hadvanced
  have hframe : tables.errorRateSum = worker.tables.errorRateSum ∧
      tables.sampleCount = worker.tables.sampleCount ∧
      tables.alertState = worker.tables.alertState := by
    have hreadable : worker.tables.DriftReadable := fun other => ⟨_, (h.watches other).2⟩
    obtain ⟨found, ⟨other, hfound⟩, hsums, hcounts, hstates, -⟩ :=
      CalibrationTables.driftAlert_ok root delivery.event hreadable
    obtain ⟨rfl, -⟩ := Prod.mk.inj (Except.ok.inj (hrun.symm.trans hfound))
    exact ⟨hsums, hcounts, hstates⟩
  have hwatch : ((watchOf drifted backendName).step root backendName delivery.event.errorRate).1 =
      watchOf (drifted ++ [delivery]) backendName := by
    have hown : Keyed.ownOf rateOf backendName (drifted ++ [delivery]) =
        Keyed.ownOf rateOf backendName drifted ++ [delivery.event.errorRate] := by
      rw [Keyed.ownOf_concat, rateOf, if_pos rfl]
      rfl
    simp only [watchOf, hown, watched_concat]
  have hannounced : alert.map DriftAlertEvent.level =
      (if after = before then none else some after).map AlertLevel.value := by
    have hstep := @DriftWatch.step_announced 𝕂 _ _ root backendName (watchOf drifted backendName)
      delivery.event.errorRate
    rw [hwatch] at hstep
    rw [hlevels, ← hstep, Option.map_map]
    rfl
  refine ⟨tables, alert, hrun, hframe, hadvanced, ?_⟩
  cases alert with
  | none =>
      split_ifs at hannounced ⊢
      · rfl
      · cases hannounced
  | some event =>
      have hname := driftAlert_name hrun
      split_ifs at hannounced ⊢
      · cases hannounced
      · have hlevel : event.level = after.value := Option.some.inj hannounced
        simp [driftAlertLevels, hname, hlevel, backendName]

-- The drift path brings the baseline and the drift alerts up to it.
theorem Stands.driftPath (h : Stands root flat drifted worker) (arrival : CalibrationArrival 𝕂) :
    ∃ later, worker.driftPath root arrival = .ok later ∧
      Stands root flat (drifted ++ [arrival.delivery]) later := by
  let delivery := arrival.delivery
  let backendName := delivery.event.backendName
  let watchOf := fun (seen : List (CalibrationDelivery 𝕂)) other =>
    (watched root other (Keyed.ownOf rateOf other seen)).1
  obtain ⟨tables, alert, hrun, ⟨hsums, hcounts, hstates⟩, hwatches, hannounced⟩ :=
    h.driftAlert delivery
  have hlevel : ∀ other, (tables.driftAlertState.get other {}).level =
      (watchOf (drifted ++ [delivery]) other).alert.level.value := by
    intro other
    rw [(hwatches other).2]
    rfl
  have hbefore : ∀ other, (watchOf drifted other).alert.level.value =
      lastLevel other (driftAlertLevels worker.driftAlertsTopic) := by
    intro other
    rw [← h.driftLevels other, (h.watches other).2]
    rfl
  have hother : ∀ other, other ≠ backendName →
      watchOf (drifted ++ [delivery]) other = watchOf drifted other := by
    intro other hname
    have hown : Keyed.ownOf rateOf other (drifted ++ [delivery]) =
        Keyed.ownOf rateOf other drifted := by
      rw [Keyed.ownOf_concat, rateOf, if_neg (Ne.symm hname)]
      simp
    simp only [watchOf, hown]
  let next : FaustWorker 𝕂 := { worker with tables }
  obtain ⟨htables, hflat, htopic, hfeeds⟩ := announced_drift next arrival.driftStampedAt alert
  have hpath : worker.driftPath root arrival =
      .ok (alert.elim next (next.announceDrift arrival.driftStampedAt)) := by
    have hrun' : worker.tables.driftAlert root arrival.delivery.event = .ok (tables, alert) := hrun
    simp only [FaustWorker.driftPath, hrun']
    rfl
  refine ⟨_, hpath, ?_⟩
  constructor
  · rw [htables, show next.tables.errorRateSum = _ from hsums]
    exact h.totals
  · rw [htables, show next.tables.sampleCount = _ from hcounts]
    exact h.counts
  · rw [htables, show next.tables.alertState = _ from hstates]
    exact h.alerts
  · rw [htables, show next.tables.alertState = _ from hstates]
    exact h.known
  · rw [htables]
    exact hwatches
  · rw [htables, hflat, show next.tables.alertState = _ from hstates]
    exact h.alertLevels
  · intro other
    have hlast : lastLevel other (driftAlertLevels (worker.driftAlertsTopic ++ alert.toList)) =
        if other = backendName then
          (watchOf (drifted ++ [delivery]) backendName).alert.level.value
        else lastLevel other (driftAlertLevels worker.driftAlertsTopic) := by
      have hsplit : driftAlertLevels (worker.driftAlertsTopic ++ alert.toList) =
          driftAlertLevels worker.driftAlertsTopic ++ driftAlertLevels alert.toList :=
        List.map_append
      rw [hsplit, hannounced, lastLevel_moved (hbefore backendName)]
    rw [htables, htopic, show next.driftAlertsTopic = worker.driftAlertsTopic from rfl, hlast]
    by_cases hname : other = backendName
    · rw [if_pos hname, hname]
      exact hlevel backendName
    · rw [if_neg hname, ← hbefore other, ← hother other hname]
      exact hlevel other
  · exact hfeeds h.feeds

-- Both paths together are one turn of the agent's loop, with its transitions announced.
theorem process_eq (root : 𝕂 → 𝕂) (worker : FaustWorker 𝕂) (arrival : CalibrationArrival 𝕂) :
    worker.process root arrival =
      (processCalibrationEvent root worker.tables arrival.delivery).map fun processed =>
        let next := { worker with tables := processed.1 }
        let flat := processed.2.alert.elim next (next.announceAlert arrival.alertStampedAt)
        processed.2.driftAlert.elim flat (flat.announceDrift arrival.driftStampedAt) := by
  unfold FaustWorker.process FaustWorker.flatPath FaustWorker.driftPath processCalibrationEvent
  let accumulated := worker.tables.accumulate arrival.delivery
  change (accumulated.flatAlert _ _ >>= _) >>= _ = Except.map _ (accumulated.flatAlert _ _ >>= _)
  cases accumulated.flatAlert arrival.delivery.event.backendName
      (accumulated.windowAvg arrival.delivery) with
  | error exc => rfl
  | ok flat =>
      obtain ⟨tables, alert⟩ := flat
      have hrest : ∀ halfway : FaustWorker 𝕂, halfway.tables = tables →
          halfway.driftPath root arrival =
            (tables.driftAlert root arrival.delivery.event).map fun drift =>
              drift.2.elim { halfway with tables := drift.1 }
                ({ halfway with tables := drift.1 }.announceDrift arrival.driftStampedAt) := by
        intro halfway htables
        unfold FaustWorker.driftPath
        rw [htables]
        cases tables.driftAlert root arrival.delivery.event with
        | error exc => rfl
        | ok drift => rfl
      cases alert with
      | none =>
          refine (hrest { worker with tables } rfl).trans ?_
          simp only [ok_bind]
          cases tables.driftAlert root arrival.delivery.event with
          | error exc => rfl
          | ok drift => rfl
      | some event =>
          refine (hrest ({ worker with tables }.announceAlert arrival.alertStampedAt event)
            rfl).trans ?_
          simp only [ok_bind]
          cases tables.driftAlert root arrival.delivery.event with
          | error exc => rfl
          | ok drift => rfl

theorem found_stands (root : 𝕂 → 𝕂) (arrivals : List (CalibrationArrival 𝕂))
    (halfway : Option (CalibrationArrival 𝕂)) :
    ∃ worker, FaustWorker.found root arrivals halfway = .ok worker ∧
      Stands root ((arrivals ++ halfway.toList).map CalibrationArrival.delivery)
        (arrivals.map CalibrationArrival.delivery) worker := by
  have hwhole : ∃ worker, arrivals.foldlM (FaustWorker.process root) ({} : FaustWorker 𝕂) =
      .ok worker ∧ Stands root (arrivals.map CalibrationArrival.delivery)
        (arrivals.map CalibrationArrival.delivery) worker := by
    induction arrivals using List.reverseRecOn with
    | nil => exact ⟨{}, rfl, .start⟩
    | append_singleton arrivals arrival ih =>
        obtain ⟨before, hbefore, hstands⟩ := ih
        obtain ⟨halfway, hflat, hhalfway⟩ := hstands.flatPath arrival
        obtain ⟨after, hdrift, hafter⟩ := hhalfway.driftPath arrival
        refine ⟨after, ?_, ?_⟩
        · rw [List.foldlM_append, hbefore]
          simp only [ok_bind, List.foldlM_cons, List.foldlM_nil, FaustWorker.process, hflat, hdrift]
          rfl
        · rw [List.map_append, List.map_singleton]
          exact hafter
  obtain ⟨worker, hworker, hstands⟩ := hwhole
  cases halfway with
  | none =>
      refine ⟨worker, ?_, by simpa using hstands⟩
      simp only [FaustWorker.found, hworker]
      rfl
  | some arrival =>
      obtain ⟨later, hlater, hflat⟩ := hstands.flatPath arrival
      refine ⟨later, ?_, by simpa using hflat⟩
      simp only [FaustWorker.found, hworker, ok_bind, Option.elim_some, hlater]

end paths

section page

variable [CharZero 𝕂] {root : 𝕂 → 𝕂} {flat drifted : List (CalibrationDelivery 𝕂)}
  {worker : FaustWorker 𝕂}

theorem Stands.shows (h : Stands root flat drifted worker) (reads : PageReads 𝕂)
    (backendName : String) :
    Shows root flat drifted worker reads (backendState root worker.tables reads backendName
      (worker.tables.alertState.get backendName {})) := by
  let rates := Keyed.ownOf rateOf backendName drifted
  have hbaseline : worker.tables.baselineStats.get backendName {} = welford rates :=
    (h.watches backendName).1.trans (watched_baseline backendName rates)
  have hdrift : worker.tables.driftAlertState.get backendName {} = .ofState
      (steps CalibrationTables.driftHysteresis backendName (zscores root rates)) := by
    rw [(h.watches backendName).2, watched_alert]
  have hcount := count_eq h.counts backendName (tumbling reads.countReadAt)
  have htotal := total_eq h.totals backendName (tumbling reads.totalReadAt)
  have hsummary := welford_summarises rates
  constructor
  · exact hcount
  · simp only [backendState, htotal]
    by_cases hzero : worker.tables.sampleCount backendName (tumbling reads.countReadAt) = 0
    · rw [if_neg (not_not.mpr hzero), if_pos hzero]
    · rw [if_pos hzero, if_neg hzero]
  · exact h.alertLevels backendName
  · simp only [backendState, h.alerts backendName, AlertStateRecord.ofState,
      steps_consecutiveBreaches]
  · simp only [backendState, h.alerts backendName, AlertStateRecord.ofState, steps_consecutiveOk]
    rfl
  · simp only [backendState, hbaseline, hsummary.count]
    rfl
  · simp only [backendState, hbaseline, welford_mean]
    rfl
  · simp only [backendState, hbaseline, WelfordStats.stddev, welford_variance]
    rfl
  · exact h.driftLevels backendName
  · simp only [backendState, hdrift, AlertStateRecord.ofState, steps_consecutiveBreaches]
    rfl
  · simp only [backendState, hdrift, AlertStateRecord.ofState, steps_consecutiveOk]
    rfl

-- Whenever the page is asked for, between two events or while an alert is being sent, it shows
-- the backends met so far, each with its windows as the clock has them now, with the levels
-- that were last announced for it and with the streaks and the baseline of its samples, and
-- the feed shows the last of what was announced, newest first.
theorem state_page_law (root : 𝕂 → 𝕂) (arrivals : List (CalibrationArrival 𝕂))
    (halfway : Option (CalibrationArrival 𝕂)) (clock : String → PageReads 𝕂) :
    ∃ worker, FaustWorker.found root arrivals halfway = .ok worker ∧
      PageLaw root ((arrivals ++ halfway.toList).map CalibrationArrival.delivery)
        (arrivals.map CalibrationArrival.delivery) worker clock (getState root worker clock) := by
  obtain ⟨worker, hfound, hstands⟩ := found_stands root arrivals halfway
  refine ⟨worker, hfound, ?_, ?_, hstands.feeds⟩
  · rw [← hstands.known]
    simp only [getState, List.map_map]
    rfl
  · intro row hrow
    obtain ⟨⟨backendName, record⟩, hentry, rfl⟩ := List.mem_map.mp hrow
    have hrecord : worker.tables.alertState.get backendName {} = record := by
      rw [Dict.get, Dict.mem_items_iff _ |>.mp hentry]
      rfl
    rw [← hrecord]
    exact hstands.shows (clock backendName) backendName

end page

def highArrival (time : ℚ) : CalibrationArrival ℚ := ⟨⟨⟨"mock", 1⟩, time, time, time⟩, time, time⟩

-- Asked for while the alert of the third high sample is on its way.
theorem state_page_law_halfway :
    ∃ worker, FaustWorker.found id [highArrival 0, highArrival 1] (some (highArrival 2)) =
        .ok worker ∧
      PageLaw id ([highArrival 0, highArrival 1, highArrival 2].map CalibrationArrival.delivery)
        ([highArrival 0, highArrival 1].map CalibrationArrival.delivery) worker
        (fun _ => ⟨3, 3⟩) (getState id worker fun _ => ⟨3, 3⟩) :=
  state_page_law id [highArrival 0, highArrival 1] (some (highArrival 2)) fun _ => ⟨3, 3⟩

end QuantumPlatform.Stream
