import QuantumPlatform.Stream.FaustApp.Metrics
import Mathlib.Algebra.Order.BigOperators.Group.List
import Mathlib.Data.Rat.Floor

namespace QuantumPlatform.Stream

open Process Python WindowTable

variable {𝕂 : Type} [Field 𝕂] [LinearOrder 𝕂]

-- The fold that an exact entry of the table is.
def aggregate (deliveries : List (VQEDelivery 𝕂)) : VQEWindowState 𝕂 :=
  deliveries.foldl (fun state delivery => state.add delivery.event) {}

theorem aggregate_concat (deliveries : List (VQEDelivery 𝕂)) (delivery : VQEDelivery 𝕂) :
    aggregate (deliveries ++ [delivery]) = (aggregate deliveries).add delivery.event := by
  simp only [aggregate, List.foldl_concat]

theorem aggregate_iterationCount (deliveries : List (VQEDelivery 𝕂)) :
    (aggregate deliveries).iterationCount = deliveries.length := by
  induction deliveries using List.reverseRecOn with
  | nil => rfl
  | append_singleton deliveries delivery ih =>
      rw [aggregate_concat]
      simp [VQEWindowState.add, ih]

-- The minimum starts with the first event: only then is it defined.
theorem aggregate_bestEnergy (deliveries : List (VQEDelivery 𝕂)) (hne : deliveries ≠ []) :
    ((aggregate deliveries).bestEnergy : WithTop 𝕂) = (energies deliveries).minimum := by
  induction deliveries using List.reverseRecOn with
  | nil => exact absurd rfl hne
  | append_singleton deliveries delivery ih =>
      have hcount := aggregate_iterationCount deliveries
      simp only [energies_concat, List.minimum_concat]
      rw [aggregate_concat]
      by_cases hfirst : deliveries = []
      · subst hfirst
        simp [VQEWindowState.add, aggregate, energies]
      · have hlen : ¬((aggregate deliveries).iterationCount + 1 = 1) := by
          have := List.length_pos_iff.mpr hfirst
          omega
        simp only [VQEWindowState.add, hlen, if_false, WithTop.coe_min, ih hfirst]

theorem aggregate_aggregates (deliveries : List (VQEDelivery 𝕂)) (hne : deliveries ≠ []) :
    (aggregate deliveries).Aggregates deliveries := by
  have hcount := aggregate_iterationCount deliveries
  have hbest := aggregate_bestEnergy deliveries hne
  clear hne
  refine ⟨hcount, ?_, hbest, ?_, ?_, ?_, ?_⟩
  all_goals clear hcount hbest
  all_goals
    induction deliveries using List.reverseRecOn with
    | nil => rfl
    | append_singleton deliveries delivery ih =>
        rw [aggregate_concat]
        simp [VQEWindowState.add, ih]

section metric

variable [IsStrictOrderedRing 𝕂]

theorem mean_nonneg {values : List 𝕂} (h : ∀ value ∈ values, 0 ≤ value) : 0 ≤ mean values :=
  div_nonneg (List.sum_nonneg h) (Nat.cast_nonneg _)

-- Times are not negative, so the ratio is 0 exactly when no classical time was spent.
theorem VQEWindowState.Aggregates.describes {state : VQEWindowState 𝕂}
    {deliveries : List (VQEDelivery 𝕂)} (h : state.Aggregates deliveries)
    (hclassical : ∀ time ∈ classicalTimes deliveries, 0 ≤ time) (experimentId : String)
    (stampedAt : 𝕂) : (state.metric experimentId stampedAt).Describes deliveries := by
  have hquantum : state.quantumTimeSum / state.iterationCount = mean (quantumTimes deliveries) := by
    rw [h.quantumTimeSum, h.iterationCount]
    simp [mean, quantumTimes]
  have hmean : state.classicalTimeSum / state.iterationCount =
      mean (classicalTimes deliveries) := by
    rw [h.classicalTimeSum, h.iterationCount]
    simp [mean, classicalTimes]
  refine ⟨h.iterationCount, ?_, h.bestEnergy, hquantum, hmean, ?_, h.retryCount,
    h.circuitBreakerTrips⟩
  · simp [VQEWindowState.metric, h.energySum, h.iterationCount, mean, energies]
  · have hpos := mean_nonneg hclassical
    simp only [VQEWindowState.metric, hquantum, hmean]
    by_cases hzero : mean (classicalTimes deliveries) = 0
    · simp [hzero]
    · have hlt : 0 < mean (classicalTimes deliveries) := lt_of_le_of_ne hpos (Ne.symm hzero)
      simp [hzero, hlt]

end metric

variable [FloorRing 𝕂]

theorem vqeWindowStates_concat (deliveries : List (VQEDelivery 𝕂)) (delivery : VQEDelivery 𝕂) :
    vqeWindowStates (deliveries ++ [delivery]) =
      (processVqeIteration (vqeWindowStates deliveries) delivery).1 := by
  simp only [vqeWindowStates, List.foldl_concat]

namespace VQEWindowTable

section updates

variable (table : VQEWindowTable 𝕂) (state : Ref) (event : VQEIterationMetricsEvent 𝕂)

@[simp] theorem records_assign (experimentId : String) (timestamp : 𝕂) :
    (table.assign experimentId timestamp state).records = table.records := rfl

omit [FloorRing 𝕂] in
@[simp] theorem read_update_self :
    (table.update state event).records.read state = (table.records.read state).add event := by
  simp [update]

omit [FloorRing 𝕂] in
theorem read_update_of_ne {other : Ref} (hne : other ≠ state) :
    (table.update state event).records.read other = table.records.read other := by
  simp [update, Objects.read_mutate_of_ne _ _ hne]

@[simp] theorem stored_assign_self (experimentId : String) (timestamp : 𝕂) :
    (table.assign experimentId timestamp state).stored experimentId (tumbling timestamp) =
      table.records.read state := by
  simp [assign, stored]

end updates

theorem now_cases (table : VQEWindowTable 𝕂) (experimentId : String) (readAt : 𝕂) :
    (∃ state, table.entries experimentId (tumbling readAt) = some state ∧
      table.now experimentId readAt = (table, state)) ∨
    table.entries experimentId (tumbling readAt) = none ∧
      table.now experimentId readAt =
        ({ table with records := (table.records.make {}).1 }, table.records.next) := by
  unfold now
  cases hentry : table.entries experimentId (tumbling readAt) with
  | some state => exact .inl ⟨state, rfl, rfl⟩
  | none => exact .inr ⟨rfl, rfl⟩

-- The record handed out holds what is stored for the window of the clock.
theorem read_now (table : VQEWindowTable 𝕂) (experimentId : String) (readAt : 𝕂) :
    (table.now experimentId readAt).1.records.read (table.now experimentId readAt).2 =
      table.stored experimentId (tumbling readAt) := by
  unfold stored
  rcases table.now_cases experimentId readAt with ⟨state, hentry, hnow⟩ | ⟨hentry, hnow⟩
  · rw [hnow, hentry]
    rfl
  · rw [hnow, hentry]
    exact Objects.read_make_next _ _

end VQEWindowTable

-- What an event leaves in its window, and what is emitted for it: the state of the clock's window
-- with the event added to it.
theorem processVqeIteration_own (table : VQEWindowTable 𝕂) (delivery : VQEDelivery 𝕂) :
    let experimentId := delivery.event.experimentId
    let state := (table.stored experimentId (tumbling delivery.readAt)).add delivery.event
    (processVqeIteration table delivery).1.stored experimentId (tumbling delivery.timestamp) =
        state ∧
      (processVqeIteration table delivery).2 = state.metric experimentId delivery.stampedAt := by
  intro experimentId state
  have hread : ((table.now experimentId delivery.readAt).1.update
      (table.now experimentId delivery.readAt).2 delivery.event).records.read
        (table.now experimentId delivery.readAt).2 = state := by
    rw [VQEWindowTable.read_update_self, table.read_now]
  exact ⟨(VQEWindowTable.stored_assign_self _ _ _ _).trans hread,
    congrArg (·.metric experimentId delivery.stampedAt) hread⟩

-- Each window with events refers to a record of its own, and this is the aggregate of them.
structure ExactStates (deliveries : List (VQEDelivery 𝕂)) (table : VQEWindowTable 𝕂) : Prop where
  entered : ∀ experimentId window, table.entries experimentId window = none ↔
    windowDeliveries experimentId window deliveries = []
  made : ∀ experimentId window state, table.entries experimentId window = some state →
    state < table.records.next
  separate : ∀ experimentId window other otherWindow state,
    table.entries experimentId window = some state → table.entries other otherWindow = some state →
      other = experimentId ∧ otherWindow = window
  exact : ∀ experimentId window,
    table.stored experimentId window = aggregate (windowDeliveries experimentId window deliveries)

namespace ExactStates

theorem nil : ExactStates ([] : List (VQEDelivery 𝕂)) {} :=
  ⟨fun _ _ => ⟨fun _ => rfl, fun _ => rfl⟩, nofun, nofun, fun _ _ => rfl⟩

variable {seen : List (VQEDelivery 𝕂)} {table later : VQEWindowTable 𝕂} {delivery : VQEDelivery 𝕂}
  {state : Ref}

-- A record that no other window refers to is written to the event's window, and nothing else
-- has changed.
theorem written (h : ExactStates seen table)
    (hentries : later.entries = table.entries.assign delivery.event.experimentId
      (tumbling delivery.timestamp) (some state))
    (hnext : table.records.next ≤ later.records.next) (hmade : state < later.records.next)
    (hown : ∀ experimentId window, table.entries experimentId window = some state →
      experimentId = delivery.event.experimentId ∧ window = tumbling delivery.timestamp)
    (hothers : ∀ other, other < table.records.next → other ≠ state →
      later.records.read other = table.records.read other)
    (hread : later.records.read state = aggregate (windowDeliveries delivery.event.experimentId
      (tumbling delivery.timestamp) (seen ++ [delivery]))) :
    ExactStates (seen ++ [delivery]) later := by
  have hself : later.entries delivery.event.experimentId (tumbling delivery.timestamp) =
      some state := by
    rw [hentries, assign_self]
  have hother : ∀ experimentId window,
      ¬(experimentId = delivery.event.experimentId ∧ window = tumbling delivery.timestamp) →
      later.entries experimentId window = table.entries experimentId window ∧
        windowDeliveries experimentId window (seen ++ [delivery]) =
          windowDeliveries experimentId window seen := by
    intro experimentId window hne
    rw [hentries, assign_of_ne _ _ hne]
    exact ⟨rfl, among_concat_of_ne _ _ seen fun he => hne ⟨he.1.symm, he.2.symm⟩⟩
  have hkept : ∀ experimentId window kept, later.entries experimentId window = some kept →
      experimentId = delivery.event.experimentId ∧ window = tumbling delivery.timestamp ∧
          kept = state ∨
        table.entries experimentId window = some kept ∧ kept ≠ state := by
    intro experimentId window kept hentry
    by_cases hplace : experimentId = delivery.event.experimentId ∧
        window = tumbling delivery.timestamp
    · obtain ⟨rfl, rfl⟩ := hplace
      rw [hself] at hentry
      exact .inl ⟨rfl, rfl, (Option.some.inj hentry).symm⟩
    · rw [(hother experimentId window hplace).1] at hentry
      exact .inr ⟨hentry, fun hsame => hplace (hown _ _ (hsame ▸ hentry))⟩
  refine ⟨?_, ?_, ?_, ?_⟩
  · intro experimentId window
    by_cases hplace : experimentId = delivery.event.experimentId ∧
        window = tumbling delivery.timestamp
    · obtain ⟨rfl, rfl⟩ := hplace
      have hcovered := among_concat_self (fun delivery : VQEDelivery 𝕂 =>
        delivery.event.experimentId) (fun delivery => tumbling delivery.timestamp) seen delivery
      rw [hself, windowDeliveries, hcovered]
      simp
    · obtain ⟨hentry, hwindow⟩ := hother experimentId window hplace
      rw [hentry, hwindow]
      exact h.entered experimentId window
  · intro experimentId window kept hentry
    rcases hkept _ _ _ hentry with ⟨-, -, rfl⟩ | ⟨hold, -⟩
    · exact hmade
    · exact (h.made _ _ _ hold).trans_le hnext
  · intro experimentId window other otherWindow kept hfirst hsecond
    rcases hkept _ _ _ hfirst with ⟨rfl, rfl, rfl⟩ | ⟨hfirst, hne⟩
    · rcases hkept _ _ _ hsecond with ⟨rfl, rfl, -⟩ | ⟨-, hne⟩
      · exact ⟨rfl, rfl⟩
      · exact absurd rfl hne
    · rcases hkept _ _ _ hsecond with ⟨-, -, hsame⟩ | ⟨hsecond, -⟩
      · exact absurd hsame hne
      · exact h.separate _ _ _ _ _ hfirst hsecond
  · intro experimentId window
    by_cases hplace : experimentId = delivery.event.experimentId ∧
        window = tumbling delivery.timestamp
    · obtain ⟨rfl, rfl⟩ := hplace
      rw [VQEWindowTable.stored, hself]
      exact hread
    · obtain ⟨hentry, hwindow⟩ := hother experimentId window hplace
      rw [hwindow, ← h.exact, VQEWindowTable.stored, VQEWindowTable.stored, hentry]
      cases hold : table.entries experimentId window with
      | none => rfl
      | some kept =>
          exact hothers kept (h.made _ _ _ hold) fun hsame => hplace (hown _ _ (hsame ▸ hold))

theorem step (h : ExactStates seen table) (hreads : ReadsOwnOrNew seen delivery) :
    ExactStates (seen ++ [delivery]) (processVqeIteration table delivery).1 := by
  let experimentId := delivery.event.experimentId
  have hcovered : windowDeliveries experimentId (tumbling delivery.timestamp) (seen ++ [delivery]) =
      windowDeliveries experimentId (tumbling delivery.timestamp) seen ++ [delivery] :=
    among_concat_self _ _ seen delivery
  -- either way what is read is what is stored for the event's own window
  have hwindow : windowDeliveries experimentId (tumbling delivery.readAt) seen =
      windowDeliveries experimentId (tumbling delivery.timestamp) seen := by
    rcases hreads with hown | ⟨hread, hnew⟩
    · rw [hown]
    · exact hread.trans hnew.symm
  rcases table.now_cases experimentId delivery.readAt with ⟨state, hentry, hnow⟩ | ⟨hentry, hnow⟩
  · have hplace : tumbling delivery.readAt = tumbling delivery.timestamp := by
      rcases hreads with hown | ⟨hread, -⟩
      · exact hown
      · rw [(h.entered _ _).mpr hread] at hentry
        cases hentry
    have hprocess : (processVqeIteration table delivery).1 =
        (table.update state delivery.event).assign experimentId delivery.timestamp state := by
      simp only [processVqeIteration, experimentId] at hnow ⊢
      rw [hnow]
    rw [hprocess]
    refine h.written rfl le_rfl (h.made _ _ _ hentry) ?_ ?_ ?_
    · intro other window hother
      rw [← hplace]
      exact h.separate _ _ _ _ _ hentry hother
    · intro other _ hne
      rw [VQEWindowTable.records_assign, table.read_update_of_ne _ _ hne]
    · have hstored := h.exact experimentId (tumbling delivery.readAt)
      rw [VQEWindowTable.stored, hentry, hwindow] at hstored
      rw [VQEWindowTable.records_assign, VQEWindowTable.read_update_self, hcovered,
        aggregate_concat, ← hstored]
      rfl
  · have hprocess : (processVqeIteration table delivery).1 =
        (({ table with records := (table.records.make {}).1 } : VQEWindowTable 𝕂).update
          table.records.next delivery.event).assign experimentId delivery.timestamp
            table.records.next := by
      simp only [processVqeIteration, experimentId] at hnow ⊢
      rw [hnow]
    rw [hprocess]
    refine h.written rfl (Nat.le_succ _) (Nat.lt_succ_self _) ?_ ?_ ?_
    · intro other window hother
      exact absurd (h.made _ _ _ hother) (Nat.lt_irrefl _)
    · intro other hmade hne
      rw [VQEWindowTable.records_assign, VQEWindowTable.read_update_of_ne _ _ _ hne]
      exact Objects.read_make _ _ hmade
    · rw [VQEWindowTable.records_assign, VQEWindowTable.read_update_self, Objects.read_make_next,
        hcovered, ← hwindow, (h.entered _ _).mp hentry]
      rfl

theorem along {deliveries : List (VQEDelivery 𝕂)} (h : Along ReadsOwnOrNew deliveries) :
    ExactStates deliveries (vqeWindowStates deliveries) := by
  have hstep : ∀ (seen : List (VQEDelivery 𝕂)) delivery, ExactStates seen (vqeWindowStates seen) →
      ReadsOwnOrNew seen delivery →
        ExactStates (seen ++ [delivery]) (vqeWindowStates (seen ++ [delivery])) := by
    intro seen delivery hexact hreads
    rw [vqeWindowStates_concat]
    exact hexact.step hreads
  exact h.invariant nil hstep

end ExactStates

section timing

theorem windowDeliveries_timed {first second : List (VQEDelivery 𝕂)}
    (h : List.Forall₂ VQEDelivery.SameTiming first second) (experimentId : String) (window : Int) :
    List.Forall₂ VQEDelivery.SameTiming (windowDeliveries experimentId window first)
      (windowDeliveries experimentId window second) :=
  among_forall₂ _ _ (fun _ _ hitem => ⟨hitem.experimentId, by rw [hitem.timestamp]⟩) h _ _

-- Where the read goes is the same for all values.
theorem ReadsOwnOrNew.timed {seen past : List (VQEDelivery 𝕂)} {delivery other : VQEDelivery 𝕂}
    (hseen : List.Forall₂ VQEDelivery.SameTiming seen past)
    (hother : VQEDelivery.SameTiming delivery other) (h : ReadsOwnOrNew seen delivery) :
    ReadsOwnOrNew past other := by
  unfold ReadsOwnOrNew
  rw [hother.experimentId, hother.readAt, hother.timestamp]
  refine h.imp_right fun ⟨hread, hown⟩ => ⟨?_, ?_⟩
  · exact List.forall₂_nil_left_iff.mp (hread ▸ windowDeliveries_timed hseen _ _)
  · exact List.forall₂_nil_left_iff.mp (hown ▸ windowDeliveries_timed hseen _ _)

-- Energy only in one window of one experiment, and no time spent at all.
def energyIn (experimentId : String) (window : Int) (delivery : VQEDelivery 𝕂) : VQEDelivery 𝕂 :=
  { delivery with event := { delivery.event with
      energy := if delivery.event.experimentId = experimentId ∧
        tumbling delivery.timestamp = window then 1 else 0,
      quantumTimeS := 0,
      classicalTimeS := 0 } }

variable (experimentId : String) (window : Int)

theorem sameTiming_energyIn (deliveries : List (VQEDelivery 𝕂)) :
    List.Forall₂ VQEDelivery.SameTiming deliveries (deliveries.map (energyIn experimentId window)) :=
  List.forall₂_map_right_iff.mpr (List.forall₂_same.mpr fun _ _ => ⟨rfl, rfl, rfl⟩)

theorem energies_energyIn (deliveries : List (VQEDelivery 𝕂)) (other : Int) :
    energies (windowDeliveries experimentId other (deliveries.map (energyIn experimentId window))) =
      List.replicate (windowDeliveries experimentId other deliveries).length
        (if other = window then (1 : 𝕂) else 0) := by
  have htimed := windowDeliveries_timed (sameTiming_energyIn experimentId window deliveries)
    experimentId other
  refine List.eq_replicate_iff.mpr ⟨by rw [energies, List.length_map, htimed.length_eq], ?_⟩
  intro energy hmem
  obtain ⟨delivery, hdelivery, rfl⟩ := List.mem_map.mp hmem
  obtain ⟨hmarked, hname, hwindow⟩ := (mem_among _ _).mp hdelivery
  obtain ⟨original, -, rfl⟩ := List.mem_map.mp hmarked
  have hown : original.event.experimentId = experimentId := hname
  have hplace : tumbling original.timestamp = other := hwindow
  simp only [energyIn, hown, hplace, true_and]

-- With energy in the event's own window only, the window read has as many events as the event's own
-- window and as much energy: it is this window, or there are no events.
theorem readsOwnOrNew_of_energyIn [IsStrictOrderedRing 𝕂] {seen : List (VQEDelivery 𝕂)}
    {delivery : VQEDelivery 𝕂}
    (hreads : Along ReadsOwnOrNew seen)
    (h : CoversWindow
      (seen.map (energyIn delivery.event.experimentId (tumbling delivery.timestamp)))
      (energyIn delivery.event.experimentId (tumbling delivery.timestamp) delivery)) :
    ReadsOwnOrNew seen delivery := by
  let experimentId := delivery.event.experimentId
  let window := tumbling delivery.timestamp
  let past := seen.map (energyIn experimentId window)
  have hpast := sameTiming_energyIn experimentId window seen
  have hexact : ExactStates past (vqeWindowStates past) :=
    .along (hreads.of_forall₂ hpast fun _ _ _ _ hseen hother hread => hread.timed hseen hother)
  have hcovered : windowDeliveries experimentId window
      (past ++ [energyIn experimentId window delivery]) =
      windowDeliveries experimentId window past ++ [energyIn experimentId window delivery] :=
    among_concat_self _ _ past (energyIn experimentId window delivery)
  have hstored : (vqeWindowStates (past ++ [energyIn experimentId window delivery])).stored
      experimentId window = (aggregate (windowDeliveries experimentId
        (tumbling delivery.readAt) past)).add (energyIn experimentId window delivery).event := by
    rw [vqeWindowStates_concat, ← hexact.exact]
    exact (processVqeIteration_own _ (energyIn experimentId window delivery)).1
  obtain ⟨haggregates, -⟩ := h
  change ((vqeWindowStates (past ++ [energyIn experimentId window delivery])).stored
    experimentId window).Aggregates (windowDeliveries experimentId window
      (past ++ [energyIn experimentId window delivery])) at haggregates
  rw [hstored, hcovered, ← aggregate_concat] at haggregates
  have hread := aggregate_aggregates (windowDeliveries experimentId (tumbling delivery.readAt) past ++
    [energyIn experimentId window delivery]) (by simp)
  have hcount := hread.iterationCount.symm.trans haggregates.iterationCount
  have henergy := hread.energySum.symm.trans haggregates.energySum
  have hlength : ∀ other, (windowDeliveries experimentId other past).length =
      (windowDeliveries experimentId other seen).length := fun other =>
    (windowDeliveries_timed hpast experimentId other).length_eq.symm
  simp only [List.length_append, hlength, List.length_singleton, Nat.add_right_cancel_iff] at hcount
  simp only [energies_concat, List.sum_append, List.sum_singleton, add_left_inj] at henergy
  rw [energies_energyIn, energies_energyIn, List.sum_replicate, List.sum_replicate, if_pos rfl,
    nsmul_one] at henergy
  by_cases hown : tumbling delivery.readAt = window
  · exact .inl hown
  · rw [if_neg hown, nsmul_zero] at henergy
    have hnone : (windowDeliveries experimentId window seen).length = 0 :=
      Nat.cast_eq_zero.mp henergy.symm
    exact .inr ⟨List.length_eq_zero_iff.mp (hcount.trans hnone), List.length_eq_zero_iff.mp hnone⟩

end timing

variable [IsStrictOrderedRing 𝕂]

-- One event, of a stream whose windows have been exact so far.
theorem ReadsOwnOrNew.covers {seen : List (VQEDelivery 𝕂)} {delivery : VQEDelivery 𝕂}
    (hexact : ExactStates seen (vqeWindowStates seen)) (hreads : ReadsOwnOrNew seen delivery)
    (hclassical : ∀ other ∈ seen ++ [delivery], 0 ≤ other.event.classicalTimeS) :
    CoversWindow seen delivery := by
  let experimentId := delivery.event.experimentId
  let window := tumbling delivery.timestamp
  let covered := windowDeliveries experimentId window (seen ++ [delivery])
  have hcovered : covered = windowDeliveries experimentId window seen ++ [delivery] :=
    among_concat_self _ _ seen delivery
  have hstates := hexact.step hreads
  obtain ⟨hown, hemitted⟩ := processVqeIteration_own (vqeWindowStates seen) delivery
  have hstored : (processVqeIteration (vqeWindowStates seen) delivery).1.stored experimentId window =
      aggregate covered := hstates.exact experimentId window
  have haggregates : (aggregate covered).Aggregates covered :=
    aggregate_aggregates covered (by simp [hcovered])
  have htimes : ∀ time ∈ classicalTimes covered, 0 ≤ time := by
    intro time htime
    obtain ⟨other, hother, rfl⟩ := List.mem_map.mp htime
    exact hclassical other ((mem_among _ _).mp hother).1
  refine ⟨?_, ?_⟩
  · rw [vqeWindowStates_concat, hstored]
    exact haggregates
  · rw [hemitted, ← hown, hstored]
    exact haggregates.describes htimes experimentId delivery.stampedAt

-- Whatever the energies, times and counts are, every stored aggregate and every emitted event
-- covers its window, if and only if the clock is always in the event's own window when the state
-- is read, or the two windows are both new to the experiment.
theorem covers_windows_iff (deliveries : List (VQEDelivery 𝕂)) :
    (∀ others, List.Forall₂ VQEDelivery.SameTiming deliveries others →
      (∀ other ∈ others, 0 ≤ other.event.quantumTimeS ∧ 0 ≤ other.event.classicalTimeS) →
        Along CoversWindow others) ↔ Along ReadsOwnOrNew deliveries := by
  constructor
  · intro hcovers
    have hmarked : ∀ experimentId window, Along CoversWindow
        (deliveries.map (energyIn experimentId window)) := by
      intro experimentId window
      refine hcovers _ (sameTiming_energyIn experimentId window deliveries) fun other hmem => ?_
      obtain ⟨delivery, -, rfl⟩ := List.mem_map.mp hmem
      exact ⟨le_refl 0, le_refl 0⟩
    clear hcovers
    induction deliveries using List.reverseRecOn with
    | nil => exact Along.nil
    | append_singleton seen delivery ih =>
        have hsplit : ∀ experimentId window,
            Along CoversWindow (seen.map (energyIn experimentId window)) ∧
              CoversWindow (seen.map (energyIn experimentId window))
                (energyIn experimentId window delivery) := by
          intro experimentId window
          have h := hmarked experimentId window
          rwa [List.map_append, List.map_cons, List.map_nil, Along.concat_iff] at h
        have hseen := ih fun experimentId window => (hsplit experimentId window).1
        exact Along.concat_iff.mpr ⟨hseen, readsOwnOrNew_of_energyIn hseen (hsplit _ _).2⟩
  · intro hreads others hothers htimes
    have htimed : Along ReadsOwnOrNew others := hreads.of_forall₂ hothers
      fun _ _ _ _ hseen hother hread => hread.timed hseen hother
    intro past other hpast
    have hearlier : Along ReadsOwnOrNew past := fun seen delivery hseen =>
      htimed seen delivery (hseen.trans ((List.prefix_append _ _).trans hpast))
    exact (htimed past other hpast).covers (.along hearlier) fun delivery hmem =>
      (htimes delivery (hpast.subset hmem)).2

-- Two events of one window, the second of them processed after its end.
def firstIteration : VQEDelivery ℚ := ⟨⟨"vqe-1", -1, 3, 1, 0, 0⟩, 10, 11, 11⟩
def laggingIteration : VQEDelivery ℚ := ⟨⟨"vqe-1", -2, 3, 1, 0, 0⟩, 50, 61, 61⟩

theorem lagging_window_miscounted :
    (∀ delivery ∈ [firstIteration, laggingIteration], 0 ≤ delivery.event.quantumTimeS ∧
      0 ≤ delivery.event.classicalTimeS ∧ delivery.timestamp ≤ delivery.readAt) ∧
    ¬Along CoversWindow [firstIteration, laggingIteration] := by
  refine ⟨by decide +kernel, fun h => ?_⟩
  have hlast : CoversWindow [firstIteration] laggingIteration :=
    h [firstIteration] laggingIteration (List.prefix_refl _)
  have hcount := hlast.1.iterationCount
  revert hcount
  decide +kernel

-- The state is shared: the third event is stored for its own window as well as for the one that
-- it is read from, and the fourth event finds it there.
example : ((processVqeIteration (vqeWindowStates [firstIteration,
    { firstIteration with timestamp := 70, readAt := 71 },
    { firstIteration with timestamp := 50, readAt := 75 }])
    { firstIteration with timestamp := 80, readAt := 81 }).2.iterationCount) = 3 := by
  decide +kernel

-- A lag within the window does no harm, and neither does one of an experiment's first event.
theorem covers_windows_iff_punctual :
    Along CoversWindow [firstIteration, { firstIteration with timestamp := 50, readAt := 55 },
      ⟨⟨"vqe-2", 1 / 2, 2, 0, 1, 0⟩, 58, 61, 61⟩, ⟨⟨"vqe-1", -3, 1, 1, 0, 1⟩, 60, 62, 62⟩] := by
  have hreads : Along ReadsOwnOrNew ([] ++ [firstIteration] ++
      [{ firstIteration with timestamp := 50, readAt := 55 }] ++
      [⟨⟨"vqe-2", 1 / 2, 2, 0, 1, 0⟩, 58, 61, 61⟩] ++
        [⟨⟨"vqe-1", -3, 1, 1, 0, 1⟩, 60, 62, 62⟩]) := by
    simp only [Along.concat_iff]
    exact ⟨⟨⟨⟨Along.nil, .inl (by decide +kernel)⟩, .inl (by decide +kernel)⟩,
      .inr ⟨rfl, rfl⟩⟩, .inl (by decide +kernel)⟩
  exact (covers_windows_iff _).mpr hreads _
    (List.forall₂_same.mpr fun _ _ => ⟨rfl, rfl, rfl⟩) (by decide +kernel)

end QuantumPlatform.Stream
