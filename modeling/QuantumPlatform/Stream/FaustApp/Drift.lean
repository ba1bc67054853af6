import QuantumPlatform.Process.Fallible
import QuantumPlatform.Process.Keyed
import QuantumPlatform.Stream.Drift.Theorems
import QuantumPlatform.Stream.FaustApp.Alerts.Theorems
import Mathlib.Algebra.Order.Archimedean.Real.Basic

namespace QuantumPlatform.Stream

open Process Python Statistics

section watch

variable {𝕂 : Type} [Field 𝕂] [LinearOrder 𝕂]

-- What the two drift tables keep of one backend.
structure DriftWatch (𝕂 : Type) [Zero 𝕂] where
  baseline : WelfordStats 𝕂 := {}
  alert : AlertState := {}

def DriftWatch.step (root : 𝕂 → 𝕂) (backendName : String) (watch : DriftWatch 𝕂) (errorRate : 𝕂) :
    DriftWatch 𝕂 × Option (AlertTransition 𝕂) :=
  let baseline := watch.baseline.update errorRate
  match watch.baseline.zscore root errorRate with
  | none => ({ watch with baseline }, none)
  | some z =>
      let (alert, transition) :=
        Stream.step CalibrationTables.driftHysteresis backendName watch.alert |z|
      (⟨baseline, alert⟩, transition)

-- The watch over a series of samples, and the level that each of them was announced with.
def watched (root : 𝕂 → 𝕂) (backendName : String) (errorRates : List 𝕂) :
    DriftWatch 𝕂 × List (Option String) :=
  errorRates.foldl (fun (watch, levels) errorRate =>
    let (watch, transition) := watch.step root backendName errorRate
    (watch, levels ++ [transition.map fun transition => transition.level.value])) ({}, [])

-- The sample that a message has for a backend.
def rateOf (backendName : String) (delivery : CalibrationDelivery 𝕂) : Option 𝕂 :=
  if delivery.event.backendName = backendName then some delivery.event.errorRate else none

-- The levels that the agent publishes on the drift topic for the events of one backend.
def driftLevels (backendName : String)
    (history : List (CalibrationDelivery 𝕂 × CalibrationOutput 𝕂)) : List (Option String) :=
  (history.filter fun entry => decide (entry.1.event.backendName = backendName)).map
    fun entry => entry.2.driftAlert.map DriftAlertEvent.level

variable {root : 𝕂 → 𝕂} {tables : CalibrationTables 𝕂}

theorem watched_concat (backendName : String) (errorRates : List 𝕂) (errorRate : 𝕂) :
    watched root backendName (errorRates ++ [errorRate]) =
      let seen := watched root backendName errorRates
      let next := seen.1.step root backendName errorRate
      (next.1, seen.2 ++ [next.2.map fun transition => transition.level.value]) := by
  simp only [watched, List.foldl_append]
  rfl

theorem watched_baseline (backendName : String) (errorRates : List 𝕂) :
    (watched root backendName errorRates).1.baseline = welford errorRates := by
  induction errorRates using List.reverseRecOn with
  | nil => rfl
  | append_singleton errorRates errorRate ih =>
      rw [watched_concat, welford_concat, ← ih]
      simp only [DriftWatch.step]
      cases (watched root backendName errorRates).1.baseline.zscore root errorRate with
      | none => rfl
      | some z => rfl

-- The tables hold these watches.
def Watches (tables : CalibrationTables 𝕂) (watches : String → DriftWatch 𝕂) : Prop :=
  ∀ backendName, tables.baselineStats.get backendName {} = (watches backendName).baseline ∧
    tables.driftAlertState.get backendName {} = .ofState (watches backendName).alert

-- The watches of all backends after one more message.
def watchNext (root : 𝕂 → 𝕂) (backendName : String) (watch : DriftWatch 𝕂) (errorRate : 𝕂) :
    DriftWatch 𝕂 :=
  (watch.step root backendName errorRate).1

variable {watches : String → DriftWatch 𝕂}

theorem watched_advance (deliveries : List (CalibrationDelivery 𝕂))
    (delivery : CalibrationDelivery 𝕂) :
    Keyed.advance rateOf (watchNext root)
        (fun backendName => (watched root backendName (Keyed.ownOf rateOf backendName deliveries)).1)
        delivery = fun backendName =>
      (watched root backendName (Keyed.ownOf rateOf backendName (deliveries ++ [delivery]))).1 := by
  funext backendName
  rw [Keyed.advance, Keyed.ownOf_concat]
  by_cases hname : delivery.event.backendName = backendName
  · simp only [rateOf, hname, if_true, Option.toList, watched_concat]
    rfl
  · simp only [rateOf, hname, if_false, Option.toList, List.append_nil]

-- Tables that differ from the last ones in the entries of one backend, and hold its next watch.
theorem Watches.advance {later : CalibrationTables 𝕂} {delivery : CalibrationDelivery 𝕂}
    (h : Watches tables watches) {next : DriftWatch 𝕂}
    (hnext : watchNext root delivery.event.backendName (watches delivery.event.backendName)
      delivery.event.errorRate = next)
    (hbaseline : later.baselineStats.get delivery.event.backendName {} = next.baseline)
    (halert : later.driftAlertState.get delivery.event.backendName {} = .ofState next.alert)
    (hothers : ∀ other, other ≠ delivery.event.backendName →
      later.baselineStats.get other {} = tables.baselineStats.get other {} ∧
        later.driftAlertState.get other {} = tables.driftAlertState.get other {}) :
    Watches later (Keyed.advance rateOf (watchNext root) watches delivery) := by
  intro other
  by_cases hname : other = delivery.event.backendName
  · subst hname
    rw [Keyed.advance, rateOf, if_pos rfl]
    simp only
    rw [hnext]
    exact ⟨hbaseline, halert⟩
  · rw [Keyed.advance, rateOf, if_neg (Ne.symm hname), (hothers other hname).1,
      (hothers other hname).2]
    exact h other

theorem Watches.driftAlert (h : Watches tables watches) (root : 𝕂 → 𝕂)
    (delivery : CalibrationDelivery 𝕂) :
    ∃ later alert, tables.driftAlert root delivery.event = .ok (later, alert) ∧
      Watches later (Keyed.advance rateOf (watchNext root) watches delivery) ∧
      alert.map DriftAlertEvent.level =
        ((watches delivery.event.backendName).step root delivery.event.backendName
          delivery.event.errorRate).2.map fun transition => transition.level.value := by
  obtain ⟨hbaseline, halert⟩ := h delivery.event.backendName
  let backendName := delivery.event.backendName
  let baseline := (watches backendName).baseline.update delivery.event.errorRate
  let updated := { tables with baselineStats := tables.baselineStats.set backendName baseline }
  cases hz : (watches backendName).baseline.zscore root delivery.event.errorRate with
  | none =>
      have hstep : (watches backendName).step root backendName delivery.event.errorRate =
          ({ watches backendName with baseline }, none) := by
        simp only [DriftWatch.step, hz]
        rfl
      refine ⟨updated, none, ?_, h.advance (congrArg Prod.fst hstep) ?_ halert ?_, ?_⟩
      · simp only [CalibrationTables.driftAlert, hbaseline, backendName, hz]
        rfl
      · exact Dict.get_set_self _ _ _ _
      · exact fun other hname => ⟨Dict.get_set_of_ne _ _ _ _ _ hname, rfl⟩
      · rw [hstep]
        rfl
  | some z =>
      let next := Stream.step CalibrationTables.driftHysteresis backendName
        (watches backendName).alert |z|
      have hstep : (watches backendName).step root backendName delivery.event.errorRate =
          (⟨baseline, next.1⟩, next.2) := by
        simp only [DriftWatch.step, hz]
        rfl
      refine ⟨{ updated with
        driftAlertState := tables.driftAlertState.set backendName (.ofState next.1) },
        next.2.map fun transition => ⟨backendName, transition.level.value, z,
          delivery.event.errorRate, baseline.mean, baseline.stddev root⟩, ?_,
        h.advance (congrArg Prod.fst hstep) ?_ ?_ ?_, ?_⟩
      · simp only [CalibrationTables.driftAlert, hbaseline, backendName, hz, halert,
          AlertStateRecord.toState_ofState]
        rfl
      · exact Dict.get_set_self _ _ _ _
      · exact Dict.get_set_self _ _ _ _
      · exact fun other hname =>
          ⟨Dict.get_set_of_ne _ _ _ _ _ hname, Dict.get_set_of_ne _ _ _ _ _ hname⟩
      · rw [hstep, Option.map_map]
        rfl

-- The part of the agent before the drift path leaves its tables alone.
theorem flatAlert_frame {later : CalibrationTables 𝕂} {backendName : String} {average : 𝕂}
    {alert : Option (AlertEvent 𝕂)} (h : tables.flatAlert backendName average = .ok (later, alert)) :
    later.baselineStats = tables.baselineStats ∧
      later.driftAlertState = tables.driftAlertState := by
  obtain ⟨state, -, hrest⟩ := bind_eq_ok.mp h
  obtain ⟨rfl, -⟩ := Prod.mk.inj (Except.ok.inj hrest)
  exact ⟨rfl, rfl⟩

variable [FloorRing 𝕂]

theorem Watches.processed (h : Watches tables watches) {delivery : CalibrationDelivery 𝕂}
    {later : CalibrationTables 𝕂} {output : CalibrationOutput 𝕂}
    (hrun : processCalibrationEvent root tables delivery = .ok (later, output)) :
    Watches later (Keyed.advance rateOf (watchNext root) watches delivery) ∧
      output.driftAlert.map DriftAlertEvent.level =
        ((watches delivery.event.backendName).step root delivery.event.backendName
          delivery.event.errorRate).2.map fun transition => transition.level.value := by
  obtain ⟨⟨flat, alert⟩, hflat, hrest⟩ := bind_eq_ok.mp hrun
  obtain ⟨hstats, hstates⟩ := flatAlert_frame hflat
  have hwatches : Watches flat watches := by
    intro backendName
    rw [hstats, hstates]
    exact h backendName
  obtain ⟨after, driftAlert, hdrift, hafter, hlevel⟩ :=
    hwatches.driftAlert root delivery
  obtain ⟨found, hfound, hreturn⟩ := bind_eq_ok.mp hrest
  obtain rfl := Except.ok.inj (hdrift.symm.trans hfound)
  obtain ⟨rfl, rfl⟩ := Prod.mk.inj (Except.ok.inj hreturn)
  exact ⟨hafter, hlevel⟩

-- Whatever comes in for the other backends, the drift path makes of a backend what it makes
-- of the backend's own samples.
theorem processCalibrationEvents_watched {deliveries : List (CalibrationDelivery 𝕂)}
    {history : List (CalibrationDelivery 𝕂 × CalibrationOutput 𝕂)}
    (hrun : processCalibrationEvents root deliveries = .ok (tables, history)) :
    Watches tables (fun backendName =>
        (watched root backendName (Keyed.ownOf rateOf backendName deliveries)).1) ∧
      ∀ backendName, driftLevels backendName history =
        (watched root backendName (Keyed.ownOf rateOf backendName deliveries)).2 := by
  induction deliveries using List.reverseRecOn generalizing tables history with
  | nil =>
      obtain ⟨rfl, rfl⟩ := Prod.mk.inj (Except.ok.inj hrun)
      exact ⟨fun _ => ⟨rfl, rfl⟩, fun _ => rfl⟩
  | append_singleton deliveries delivery ih =>
      unfold processCalibrationEvents at hrun
      rw [List.foldlM_append] at hrun
      obtain ⟨⟨before, seen⟩, hbefore, hlast⟩ := bind_eq_ok.mp hrun
      obtain ⟨hwatches, hlevels⟩ := ih hbefore
      obtain ⟨found, hfound, hreturn⟩ := bind_eq_ok.mp hlast
      obtain ⟨⟨later, output⟩, hprocess, hpair⟩ := bind_eq_ok.mp hfound
      obtain rfl := Except.ok.inj hpair
      obtain ⟨rfl, rfl⟩ := Prod.mk.inj (Except.ok.inj hreturn)
      obtain ⟨hafter, hlevel⟩ := hwatches.processed hprocess
      refine ⟨?_, fun backendName => ?_⟩
      · rw [← watched_advance]
        exact hafter
      · rw [Keyed.ownOf_concat, driftLevels, List.filter_append, List.map_append, ← driftLevels,
          hlevels backendName]
        by_cases hname : delivery.event.backendName = backendName
        · subst hname
          simp only [rateOf, if_true, Option.toList, watched_concat, ← hlevel]
          simp
        · simp [rateOf, hname]

end watch

section latency

variable {𝕂 : Type} [Field 𝕂] [LinearOrder 𝕂] [IsStrictOrderedRing 𝕂]

-- A baseline, and then samples that are off by a shift.
def shifted (value shift : 𝕂) (steady off : Nat) : List 𝕂 :=
  List.replicate steady value ++ List.replicate off (value + shift)

variable {value shift : 𝕂} {steady off : Nat}

omit [LinearOrder 𝕂] [IsStrictOrderedRing 𝕂] in
theorem shifted_succ : shifted value shift steady (off + 1) =
    shifted value shift steady off ++ [value + shift] := by
  rw [shifted, List.replicate_succ', ← List.append_assoc, shifted]

theorem flat_replicate {α : Type} (value : α) (steady : Nat) : Flat (List.replicate steady value) := by
  refine .inr fun first hfirst second hsecond => ?_
  rw [List.eq_of_mem_replicate hfirst, List.eq_of_mem_replicate hsecond]

omit [LinearOrder 𝕂] [IsStrictOrderedRing 𝕂] in
theorem not_flat_shifted (hsteady : 0 < steady) (hoff : 0 < off) (hshift : shift ≠ 0) :
    ¬Flat (shifted value shift steady off) := by
  rintro (hshort | hall)
  · simp only [shifted, List.length_append, List.length_replicate] at hshort
    omega
  · have hequal := hall value (by simp [shifted, hsteady.ne']) (value + shift)
      (by simp [shifted, hoff.ne'])
    exact hshift (by simpa using hequal)

theorem shifted_mean (h : 0 < steady + off) :
    (shifted value shift steady off).sum / (shifted value shift steady off).length =
      value + shift * off / (steady + off) := by
  have hlength : (steady + off : 𝕂) ≠ 0 := by
    exact_mod_cast h.ne'
  simp only [shifted, List.sum_append, List.sum_replicate, List.length_append,
    List.length_replicate, nsmul_eq_mul, Nat.cast_add]
  field_simp
  ring

omit [LinearOrder 𝕂] [IsStrictOrderedRing 𝕂] in
theorem deviations_replicate (center : 𝕂) (count : Nat) :
    deviations center (List.replicate count value) =
      count * ((value - center) * (value - center)) := by
  simp [deviations]

-- Two levels, weighted by the number of samples at each.
theorem shifted_variance (hsteady : 0 < steady) (hoff : 0 < off) :
    sampleVariance (shifted value shift steady off) =
      shift * shift * (steady * off) / ((steady + off) * (steady + off - 1)) := by
  have hlength : (steady + off : 𝕂) ≠ 0 := by
    exact_mod_cast (by omega : steady + off ≠ 0)
  have hdegrees : (steady + off - 1 : 𝕂) ≠ 0 := by
    rw [sub_ne_zero]
    exact_mod_cast (by omega : steady + off ≠ 1)
  have hlong : ¬(shifted value shift steady off).length < 2 := by
    simp only [shifted, List.length_append, List.length_replicate]
    omega
  rw [sampleVariance, if_neg hlong, shifted_mean (by omega)]
  simp only [shifted, deviations_append, deviations_replicate, List.length_append,
    List.length_replicate, Nat.cast_add]
  field_simp
  ring

variable {root : 𝕂 → 𝕂} (hroot : ∀ x, 0 ≤ x → root x * root x = x)
include hroot

theorem root_eq_zero_iff (x : 𝕂) (hx : 0 ≤ x) : root x = 0 ↔ x = 0 := by
  rw [← mul_self_eq_zero, hroot x hx]

-- The next shifted sample against a baseline that some of them are already part of: neither
-- the level of the baseline nor the size of the shift matters.
theorem shifted_zscore (hsteady : 0 < steady) (hoff : 0 < off) (hshift : shift ≠ 0) :
    ∃ z, (welford (shifted value shift steady off)).zscore root (value + shift) = some z ∧
      z * z = steady * (steady + off - 1) / (off * (steady + off)) := by
  let samples := shifted value shift steady off
  have hlength : (steady + off : 𝕂) ≠ 0 := by
    exact_mod_cast (by omega : steady + off ≠ 0)
  have hdegrees : (steady + off - 1 : 𝕂) ≠ 0 := by
    rw [sub_ne_zero]
    exact_mod_cast (by omega : steady + off ≠ 1)
  have hsteady' : (steady : 𝕂) ≠ 0 := Nat.cast_ne_zero.mpr hsteady.ne'
  have hoff' : (off : 𝕂) ≠ 0 := Nat.cast_ne_zero.mpr hoff.ne'
  have hvariance := hroot _ (sampleVariance_nonneg samples)
  refine ⟨_, zscore_eq_some (root_eq_zero_iff hroot)
    (not_flat_shifted hsteady hoff hshift) (value + shift), ?_⟩
  rw [div_mul_div_comm, hvariance, shifted_variance hsteady hoff, shifted_mean (by omega)]
  field_simp
  ring

section outcome

variable (backendName : String) {errorRates : List 𝕂} {errorRate : 𝕂}

theorem watched_flat (h : Flat errorRates) (errorRate : 𝕂) :
    (watched root backendName (errorRates ++ [errorRate])).1.alert =
        (watched root backendName errorRates).1.alert ∧
      (watched root backendName (errorRates ++ [errorRate])).2 =
        (watched root backendName errorRates).2 ++ [none] := by
  have hz := (zscore_eq_none_iff (root_eq_zero_iff hroot) errorRate).mpr h
  rw [watched_concat]
  simp only [DriftWatch.step, watched_baseline, hz, Option.map_none, and_self]

omit [IsStrictOrderedRing 𝕂] hroot in
theorem watched_drift {z : 𝕂} (hz : (welford errorRates).zscore root errorRate = some z) :
    let next := Stream.step CalibrationTables.driftHysteresis backendName
      (watched root backendName errorRates).1.alert |z|
    (watched root backendName (errorRates ++ [errorRate])).1.alert = next.1 ∧
      (watched root backendName (errorRates ++ [errorRate])).2 =
        (watched root backendName errorRates).2 ++
          [next.2.map fun transition => transition.level.value] := by
  rw [watched_concat]
  simp only [DriftWatch.step, watched_baseline, hz, and_self]

-- The steady samples and the first one after them go unseen.
theorem watched_steady (value : 𝕂) (count : Nat) :
    (watched root backendName (List.replicate count value)).1.alert = {} ∧
      (watched root backendName (List.replicate count value)).2 = List.replicate count none := by
  induction count with
  | zero => exact ⟨rfl, rfl⟩
  | succ count ih =>
      obtain ⟨halert, hlevels⟩ := watched_flat hroot backendName (flat_replicate value count) value
      rw [List.replicate_succ', List.replicate_succ', halert, hlevels, ih.2]
      exact ⟨ih.1, rfl⟩

end outcome

omit hroot in
theorem threshold_lt_abs {z : 𝕂} (h : 9 < z * z) :
    (CalibrationTables.driftHysteresis : Hysteresis 𝕂).threshold < |z| := by
  have hsquare : (3 : 𝕂) * 3 < |z| * |z| := by
    rw [abs_mul_abs_self]
    linarith
  have hlt := lt_of_mul_self_lt_mul_self₀ (abs_nonneg z) hsquare
  simpa [CalibrationTables.driftHysteresis, DRIFT_ZSCORE_THRESHOLD] using hlt

omit [IsStrictOrderedRing 𝕂] hroot in
-- Two breaches in a row, from the start.
theorem drift_streak (backendName : String) {first second : 𝕂}
    (hfirst : (CalibrationTables.driftHysteresis : Hysteresis 𝕂).threshold < first)
    (hsecond : (CalibrationTables.driftHysteresis : Hysteresis 𝕂).threshold < second) :
    Stream.step CalibrationTables.driftHysteresis backendName {} first = (⟨.OK, 1, 0⟩, none) ∧
      Stream.step CalibrationTables.driftHysteresis backendName ⟨.OK, 1, 0⟩ second =
        (⟨.ALERT, 2, 0⟩, some ⟨backendName, .ALERT, second,
          (CalibrationTables.driftHysteresis : Hysteresis 𝕂).threshold⟩) := by
  constructor
  · simp only [Stream.step, hfirst, if_true]
    rfl
  · simp only [Stream.step, hsecond, if_true]
    rfl

theorem shifted_exceeds (value : 𝕂) (hsteady : 0 < steady) (hoff : 0 < off) (hshift : shift ≠ 0)
    (h : 9 * (off * (steady + off)) < steady * (steady + off - 1)) :
    ∃ z, (welford (shifted value shift steady off)).zscore root (value + shift) = some z ∧
      (CalibrationTables.driftHysteresis : Hysteresis 𝕂).threshold < |z| := by
  obtain ⟨z, hz, hsquare⟩ := shifted_zscore hroot hsteady hoff hshift
  refine ⟨z, hz, threshold_lt_abs ?_⟩
  have hpos : (0 : 𝕂) < off * (steady + off) := by
    exact_mod_cast Nat.mul_pos hoff (by omega)
  have hcast : ((steady + off - 1 : Nat) : 𝕂) = steady + off - 1 := by
    rw [Nat.cast_sub (by omega)]
    push_cast
    ring
  rw [hsquare, lt_div_iff₀ hpos, ← hcast]
  exact_mod_cast h

theorem watched_shifted (hsteady : 19 ≤ steady) (hshift : shift ≠ 0) (backendName : String) :
    (watched root backendName (shifted value shift steady 3)).2 =
      List.replicate (steady + 2) none ++ [some AlertLevel.ALERT.value] := by
  have hstart : shifted value shift steady 0 = List.replicate steady value := by
    simp [shifted]
  obtain ⟨hsteadyAlert, hsteadyLevels⟩ :=
    watched_steady hroot backendName value steady
  -- a baseline without a spread
  obtain ⟨hfirstAlert, hfirstLevels⟩ := watched_flat hroot backendName
    (flat_replicate value steady) (value + shift)
  rw [← hstart, ← shifted_succ, hstart, hsteadyAlert] at hfirstAlert
  rw [← hstart, ← shifted_succ, hstart, hsteadyLevels] at hfirstLevels
  -- the first breach
  obtain ⟨second, hsecond, hsecondLarge⟩ := shifted_exceeds hroot value
    (by omega : 0 < steady) Nat.one_pos hshift (by
      obtain ⟨more, rfl⟩ := Nat.exists_eq_add_of_le hsteady
      simp only [Nat.add_sub_cancel]
      nlinarith)
  obtain ⟨hsecondAlert, hsecondLevels⟩ := watched_drift backendName hsecond
  rw [← shifted_succ, hfirstAlert] at hsecondAlert
  rw [← shifted_succ, hfirstAlert, hfirstLevels] at hsecondLevels
  -- and the one that completes the streak
  obtain ⟨third, hthird, hthirdLarge⟩ := shifted_exceeds hroot value
    (by omega : 0 < steady) (by omega : 0 < 2) hshift (by
      obtain ⟨more, rfl⟩ := Nat.exists_eq_add_of_le hsteady
      have hpred : 19 + more + 2 - 1 = 20 + more := by omega
      rw [hpred]
      nlinarith)
  obtain ⟨-, hthirdLevels⟩ := watched_drift backendName hthird
  rw [← shifted_succ, hsecondAlert, hsecondLevels] at hthirdLevels
  obtain ⟨hbreach, halert⟩ := drift_streak backendName hsecondLarge hthirdLarge
  rw [hthirdLevels, hbreach, halert, List.replicate_succ', List.replicate_succ']
  rfl

variable [FloorRing 𝕂]

-- A backend that has always had one error rate and then is off by any shift is announced on
-- the third sample, and not before, whatever the agent is sent of other backends.
theorem drift_latency (hsteady : 19 ≤ steady) (hshift : shift ≠ 0) (backendName : String)
    (deliveries : List (CalibrationDelivery 𝕂))
    (hown : Keyed.ownOf rateOf backendName deliveries =
      List.replicate steady value ++ List.replicate 3 (value + shift)) :
    ∃ tables history, processCalibrationEvents root deliveries = .ok (tables, history) ∧
      history.map Prod.fst = deliveries ∧
      driftLevels backendName history =
        List.replicate (steady + 2) none ++ [some AlertLevel.ALERT.value] := by
  obtain ⟨tables, history, hrun, hmap, -⟩ := processCalibrationEvents_reached root deliveries
  refine ⟨tables, history, hrun, hmap, ?_⟩
  rw [(processCalibrationEvents_watched hrun).2 backendName, hown]
  exact watched_shifted hroot hsteady hshift backendName

omit [LinearOrder 𝕂] [IsStrictOrderedRing 𝕂] [FloorRing 𝕂] hroot in
theorem ownOf_rateOf_map (backendName : String) (errorRates : List 𝕂) :
    Keyed.ownOf rateOf backendName (errorRates.map fun errorRate =>
      (⟨⟨backendName, errorRate⟩, 0, 0, 0⟩ : CalibrationDelivery 𝕂)) = errorRates := by
  simp [Keyed.ownOf, List.filterMap_map, rateOf, Function.comp_def]

end latency

theorem drift_latency_nineteen :
    ∃ tables history, processCalibrationEvents Real.sqrt
        ((List.replicate 19 (0 : ℝ) ++ List.replicate 3 (0 + 1)).map fun errorRate =>
          (⟨⟨"aer", errorRate⟩, 0, 0, 0⟩ : CalibrationDelivery ℝ)) = .ok (tables, history) ∧
      history.map Prod.fst =
        ((List.replicate 19 (0 : ℝ) ++ List.replicate 3 (0 + 1)).map fun errorRate =>
          (⟨⟨"aer", errorRate⟩, 0, 0, 0⟩ : CalibrationDelivery ℝ)) ∧
      driftLevels "aer" history = List.replicate 21 none ++ [some AlertLevel.ALERT.value] :=
  drift_latency (fun _ hx => Real.mul_self_sqrt hx) (le_refl 19) one_ne_zero "aer" _
    (ownOf_rateOf_map "aer" _)

end QuantumPlatform.Stream
