import QuantumPlatform.Orchestrator.Probe.Theorems
import Mathlib.Algebra.Order.BigOperators.Group.List
import Mathlib.Algebra.Order.Floor.Ring

namespace QuantumPlatform.Orchestrator

open Process Python QuantumPlatform.Core

section rounding

variable (value : ℚ)

theorem abs_roundHalfEven_sub_le : |(roundHalfEven value : ℚ) - value| ≤ 1 / 2 := by
  have hfloor := Int.floor_le value
  have hceil := Int.lt_floor_add_one value
  unfold roundHalfEven
  simp only
  rw [abs_le]
  split_ifs with hlow hhigh heven
  · constructor <;> linarith
  · push_cast
    constructor <;> linarith
  · constructor <;> linarith
  · push_cast
    constructor <;> linarith

-- Rounding does not go past a whole number.
theorem roundHalfEven_le {bound : Int} (h : value ≤ bound) : roundHalfEven value ≤ bound := by
  have habs := abs_le.mp (abs_roundHalfEven_sub_le value)
  have hlt : (roundHalfEven value : ℚ) < bound + 1 := by linarith
  have hint : roundHalfEven value < bound + 1 := by exact_mod_cast hlt
  omega

end rounding

section histogram

def OUTCOMES : List String := ["00", "01", "10", "11"]

-- Counts of the four outcomes, where those without a count may be missing.
structure Histogram (counts : Dict String Int) : Prop where
  outcomes : ∀ outcome ∈ counts.keys, outcome ∈ OUTCOMES
  nonneg : ∀ count ∈ counts.values, 0 ≤ count

variable {counts : Dict String Int}

theorem Histogram.get_nonneg (h : Histogram counts) (outcome : String) : 0 ≤ counts.get outcome 0 := by
  unfold Dict.get
  cases hget : counts.get? outcome with
  | none => exact le_refl 0
  | some count =>
      refine h.nonneg count (List.mem_map.mpr ⟨(outcome, count), ?_, rfl⟩)
      exact counts.mem_items_iff.mpr hget

theorem Histogram.total (h : Histogram counts) : counts.values.sum =
    counts.get "00" 0 + counts.get "11" 0 + oddParity counts := by
  rw [counts.sum_eq_of_keys (by decide : OUTCOMES.Nodup) h.outcomes]
  simp only [OUTCOMES, oddParity, List.map_cons, List.map_nil, List.sum_cons, List.sum_nil]
  omega

theorem Histogram.oddParity_nonneg (h : Histogram counts) : 0 ≤ oddParity counts :=
  add_nonneg (h.get_nonneg "01") (h.get_nonneg "10")

-- A count that may be missing is written back with another one.
theorem Histogram.set (h : Histogram counts) {outcome : String} (houtcome : outcome ∈ OUTCOMES)
    {count : Int} (hcount : 0 ≤ count) : Histogram (counts.set outcome count) := by
  have hmem : ∀ item ∈ (counts.set outcome count).items,
      item.1 ∈ OUTCOMES ∧ 0 ≤ item.2 := by
    rintro ⟨key, value⟩ hitem
    rw [Dict.mem_items_iff, Dict.get?_set] at hitem
    split_ifs at hitem with hkey
    · exact ⟨hkey ▸ houtcome, Option.some.inj hitem ▸ hcount⟩
    · have hold := counts.mem_items_iff.mpr hitem
      exact ⟨h.outcomes key (List.mem_map.mpr ⟨_, hold, rfl⟩),
        h.nonneg value (List.mem_map.mpr ⟨_, hold, rfl⟩)⟩
  constructor
  · intro key hkey
    obtain ⟨item, hitem, rfl⟩ := List.mem_map.mp hkey
    exact (hmem item hitem).1
  · intro value hvalue
    obtain ⟨item, hitem, rfl⟩ := List.mem_map.mp hvalue
    exact (hmem item hitem).2

end histogram

section injection

variable {counts adjusted : Dict String Int} {rate : ℚ}

-- So many observations have gone from one outcome to another.
structure Moved (source destination : String) (moved : Int) (counts adjusted : Dict String Int) :
    Prop where
  histogram : Histogram adjusted
  taken : adjusted.get source 0 = counts.get source 0 - moved
  given : adjusted.get destination 0 = counts.get destination 0 + moved
  others : ∀ other, other ≠ source → other ≠ destination →
    adjusted.get other 0 = counts.get other 0

theorem moveParity_moved (h : Histogram counts) {source destination : String}
    (hsource : source ∈ OUTCOMES) (hdestination : destination ∈ OUTCOMES)
    (hne : destination ≠ source) {remaining : Int} (hremaining : 0 ≤ remaining) :
    Moved source destination (min (counts.get source 0) remaining) counts
        (moveParity source destination (counts, remaining)).1 ∧
      (moveParity source destination (counts, remaining)).2 =
        remaining - min (counts.get source 0) remaining := by
  have hold := h.get_nonneg source
  have hnew := h.get_nonneg destination
  have hmoved : 0 ≤ min (counts.get source 0) remaining := le_min hold hremaining
  have hless : 0 ≤ counts.get source 0 - min (counts.get source 0) remaining := by omega
  have hmore : 0 ≤ counts.get destination 0 + min (counts.get source 0) remaining := by omega
  refine ⟨⟨?_, ?_, ?_, ?_⟩, rfl⟩
  · simp only [moveParity, Dict.get_set_of_ne _ _ _ _ _ hne]
    exact (h.set hsource hless).set hdestination hmore
  · simp only [moveParity, Dict.get_set_of_ne _ _ _ _ _ (Ne.symm hne), Dict.get_set_self]
  · simp only [moveParity, Dict.get_set_self, Dict.get_set_of_ne _ _ _ _ _ hne]
  · intro other hfirst hsecond
    simp only [moveParity, Dict.get_set_of_ne _ _ _ _ _ hsecond, Dict.get_set_of_ne _ _ _ _ _ hfirst]

-- What the demo hook makes of a histogram.
structure Injected (counts : Dict String Int) (rate : ℚ) (adjusted : Dict String Int) : Prop where
  histogram : Histogram adjusted
  total : adjusted.values.sum = counts.values.sum
  even : ∀ outcome ∈ ["00", "11"], adjusted.get outcome 0 ≤ counts.get outcome 0
  odd : ∀ outcome ∈ ["01", "10"], counts.get outcome 0 ≤ adjusted.get outcome 0
  target : oddParity adjusted = max (oddParity counts) (roundHalfEven (counts.values.sum * rate))

-- The two moves have no outcome in common.
structure MovedTwice (first second : Int) (counts adjusted : Dict String Int) : Prop where
  histogram : Histogram adjusted
  zeros : adjusted.get "00" 0 = counts.get "00" 0 - first
  low : adjusted.get "01" 0 = counts.get "01" 0 + first
  ones : adjusted.get "11" 0 = counts.get "11" 0 - second
  high : adjusted.get "10" 0 = counts.get "10" 0 + second

theorem moveParity_movedTwice (h : Histogram counts) {remaining : Int} (hremaining : 0 ≤ remaining) :
    let first := min (counts.get "00" 0) remaining
    MovedTwice first (min (counts.get "11" 0) (remaining - first)) counts
      (moveParity "11" "10" (moveParity "00" "01" (counts, remaining))).1 := by
  obtain ⟨hfirst, hrest⟩ := moveParity_moved h (by decide : "00" ∈ OUTCOMES)
    (by decide : "01" ∈ OUTCOMES) (by decide) hremaining
  have hleft : 0 ≤ (moveParity "00" "01" (counts, remaining)).2 := by
    rw [hrest]
    exact sub_nonneg.mpr (min_le_right _ _)
  obtain ⟨hsecond, -⟩ := moveParity_moved hfirst.histogram (by decide : "11" ∈ OUTCOMES)
    (by decide : "10" ∈ OUTCOMES) (by decide) hleft
  have hones := hfirst.others "11" (by decide) (by decide)
  have hhigh := hfirst.others "10" (by decide) (by decide)
  rw [hones, hrest] at hsecond
  refine ⟨hsecond.histogram, ?_, ?_, ?_, ?_⟩
  · exact (hsecond.others "00" (by decide) (by decide)).trans hfirst.taken
  · exact (hsecond.others "01" (by decide) (by decide)).trans hfirst.given
  · exact hsecond.taken.trans (by rw [hones])
  · exact hsecond.given.trans (by rw [hhigh])

theorem Histogram.target_le (h : Histogram counts) (hrate : rate ≤ 1) :
    roundHalfEven (counts.values.sum * rate) ≤ counts.values.sum := by
  have htotal : (0 : ℚ) ≤ counts.values.sum := by
    exact_mod_cast List.sum_nonneg h.nonneg
  exact roundHalfEven_le _ (mul_le_of_le_one_right htotal hrate)

theorem injectDemoParityErrors_injected (h : Histogram counts) (hrate : 0 ≤ rate ∧ rate ≤ 1) :
    ∃ adjusted, injectDemoParityErrors counts rate = .ok adjusted ∧ Injected counts rate adjusted := by
  let target := roundHalfEven (counts.values.sum * rate)
  let remaining := max 0 (target - oddParity counts)
  let adjusted := (moveParity "11" "10" (moveParity "00" "01" (counts, remaining))).1
  have hrun : injectDemoParityErrors counts rate = .ok adjusted := if_pos hrate
  have hmoved : MovedTwice (min (counts.get "00" 0) remaining) (min (counts.get "11" 0)
      (remaining - min (counts.get "00" 0) remaining)) counts adjusted :=
    moveParity_movedTwice h (le_max_left _ _)
  obtain ⟨hhistogram, hzeros, hlow, hones, hhigh⟩ := hmoved
  have htarget : target ≤ counts.values.sum := h.target_le hrate.2
  have hzero := h.get_nonneg "00"
  have hthree := h.get_nonneg "11"
  have hsum := h.total
  refine ⟨adjusted, hrun, hhistogram, inject_sum hrun, ?_, ?_, ?_⟩
  · intro outcome houtcome
    rcases List.mem_pair.mp houtcome with rfl | rfl
    · omega
    · omega
  · intro outcome houtcome
    rcases List.mem_pair.mp houtcome with rfl | rfl
    · omega
    · omega
  · change adjusted.get "01" 0 + adjusted.get "10" 0 = max (oddParity counts) target
    have hodd : oddParity counts = counts.get "01" 0 + counts.get "10" 0 := rfl
    have hmax : remaining = max 0 (target - oddParity counts) := rfl
    omega

end injection

-- The hook on dicts that are objects: the copy is a new one, and the moves write to it.
section objects

-- The dicts that have been made so far; an object is the place of its dict.
abbrev DictHeap := List (Dict String Int)

def DictHeap.read (heap : DictHeap) (object : Nat) : Dict String Int := heap.getD object ∅

def DictHeap.assign (heap : DictHeap) (object : Nat) (key : String) (value : Int) : DictHeap :=
  heap.set object ((heap.read object).set key value)

def moveParityIn (object : Nat) (source destination : String) (state : DictHeap × Int) :
    DictHeap × Int :=
  let (heap, remaining) := state
  let moved := min ((heap.read object).get source 0) remaining
  let heap := heap.assign object source ((heap.read object).get source 0 - moved)
  let heap := heap.assign object destination ((heap.read object).get destination 0 + moved)
  (heap, remaining - moved)

def injectDemoParityErrorsIn (heap : DictHeap) (counts : Nat) (requestedErrorRate : ℚ) :
    Except Exc (DictHeap × Nat) :=
  if 0 ≤ requestedErrorRate ∧ requestedErrorRate ≤ 1 then
    let adjusted := heap.length
    let heap := heap ++ [heap.read counts]
    let total := (heap.read adjusted).values.sum
    let target := roundHalfEven (total * requestedErrorRate)
    let current := (heap.read adjusted).get "01" 0 + (heap.read adjusted).get "10" 0
    let remaining := max 0 (target - current)
    let (heap, _) := moveParityIn adjusted "11" "10"
      (moveParityIn adjusted "00" "01" (heap, remaining))
    .ok (heap, adjusted)
  else .error (Exc.valueError "CALIBRATION_DEMO_ERROR_RATE must be between 0 and 1")

variable (heap : DictHeap) (last : Dict String Int)

theorem DictHeap.read_last : DictHeap.read (heap ++ [last]) heap.length = last := by
  simp [DictHeap.read]

theorem DictHeap.assign_last (key : String) (value : Int) :
    DictHeap.assign (heap ++ [last]) heap.length key value = heap ++ [last.set key value] := by
  rw [DictHeap.assign, DictHeap.read_last, List.set_append_right _ _ (le_refl _), Nat.sub_self]
  rfl

theorem moveParityIn_last (source destination : String) (remaining : Int) :
    moveParityIn heap.length source destination (heap ++ [last], remaining) =
      (heap ++ [(moveParity source destination (last, remaining)).1],
        (moveParity source destination (last, remaining)).2) := by
  simp only [moveParityIn, DictHeap.read_last, DictHeap.assign_last, moveParity]

-- No dict that was there before is written to.
theorem injectDemoParityErrorsIn_eq (counts : Nat) (rate : ℚ) :
    injectDemoParityErrorsIn heap counts rate =
      (injectDemoParityErrors (heap.read counts) rate).map fun adjusted =>
        (heap ++ [adjusted], heap.length) := by
  unfold injectDemoParityErrorsIn injectDemoParityErrors
  by_cases hrate : 0 ≤ rate ∧ rate ≤ 1
  · rw [if_pos hrate, if_pos hrate]
    simp only [DictHeap.read_last, moveParityIn_last]
    rfl
  · rw [if_neg hrate, if_neg hrate]
    rfl

end objects

-- What is stored for a probe whose counts are a histogram.
section stored

-- The rate is one that the table takes, and is near the requested one unless the probe
-- itself was worse.
structure Near (counts : Dict String Int) (rate stored : ℚ) : Prop where
  nonneg : 0 ≤ stored
  le_one : stored ≤ 1
  near : 1 ≤ counts.values.sum → (oddParity counts : ℚ) / counts.values.sum ≤ rate →
    |stored - rate| ≤ 1 / (2 * counts.values.sum)

variable {rate : ℚ} {probe : ExperimentResult} {saved : CalibrationResult}

theorem probeCounts_injected (h : Histogram (probe.counts.getD ∅)) (hrate : 0 ≤ rate ∧ rate ≤ 1) :
    ∃ counts, probeCounts rate probe = .ok counts ∧ Injected (probe.counts.getD ∅) rate counts := by
  unfold probeCounts
  simp only
  by_cases hdemo : rate = 0
  · rw [if_neg (not_not_intro hdemo)]
    refine ⟨_, rfl, h, rfl, fun _ _ => le_refl _, fun _ _ => le_refl _, ?_⟩
    have hround : roundHalfEven 0 = 0 := by decide +kernel
    rw [hdemo, mul_zero, hround, max_eq_left h.oddParity_nonneg]
  · rw [if_pos hdemo]
    exact injectDemoParityErrors_injected h hrate

theorem Computed.injected (hcomputed : Computed rate probe saved)
    (h : Histogram (probe.counts.getD ∅)) (hrate : 0 ≤ rate ∧ rate ≤ 1) :
    Injected (probe.counts.getD ∅) rate saved.counts := by
  obtain ⟨counts, hcounts, hinjected⟩ := probeCounts_injected h hrate
  obtain rfl := Except.ok.inj (hcomputed.counts.symm.trans hcounts)
  exact hinjected

-- The rounded target is as near as a whole number of shots can be, and old errors that
-- exceed it are below the request.
theorem abs_max_sub_le {odd : Int} {exact : ℚ} (h : (odd : ℚ) ≤ exact) :
    |((max odd (roundHalfEven exact) : Int) : ℚ) - exact| ≤ 1 / 2 := by
  have hround := abs_le.mp (abs_roundHalfEven_sub_le exact)
  rw [abs_le]
  rcases le_total odd (roundHalfEven exact) with hle | hle
  · rw [max_eq_right hle]
    exact hround
  · have hcast : ((roundHalfEven exact : Int) : ℚ) ≤ odd := by exact_mod_cast hle
    rw [max_eq_left hle]
    constructor <;> linarith

-- The divisor is the number of shots, or one where there are none.
theorem Histogram.oddParity_le_probeTotal {counts : Dict String Int} (h : Histogram counts) :
    oddParity counts ≤ probeTotal counts ∧ 0 < probeTotal counts := by
  have hodd := h.oddParity_nonneg
  have hzero := h.get_nonneg "00"
  have hthree := h.get_nonneg "11"
  have htotal := h.total
  unfold probeTotal
  split_ifs with hempty
  · omega
  · omega

theorem Computed.near (hcomputed : Computed rate probe saved)
    (h : Histogram (probe.counts.getD ∅)) (hrate : 0 ≤ rate ∧ rate ≤ 1) :
    Near (probe.counts.getD ∅) rate saved.errorRate := by
  have hinjected := hcomputed.injected h hrate
  have hodd := hinjected.histogram.oddParity_nonneg
  obtain ⟨hle, hpositive⟩ := hinjected.histogram.oddParity_le_probeTotal
  have hcast : (0 : ℚ) < probeTotal saved.counts := by exact_mod_cast hpositive
  rw [hcomputed.errorRate]
  refine ⟨div_nonneg (by exact_mod_cast hodd) hcast.le, ?_, fun hone hold => ?_⟩
  · rw [div_le_one hcast]
    exact_mod_cast hle
  · have hsame : probeTotal saved.counts = (probe.counts.getD ∅).values.sum := by
      rw [probeTotal, hinjected.total, if_neg (by omega)]
    rw [hsame] at hcast ⊢
    have hbound : (oddParity (probe.counts.getD ∅) : ℚ) ≤
        (probe.counts.getD ∅).values.sum * rate := by
      rw [div_le_iff₀ hcast] at hold
      linarith
    have habs := abs_max_sub_le hbound
    rw [← hinjected.target] at habs
    have hscale : (oddParity saved.counts : ℚ) / (probe.counts.getD ∅).values.sum - rate =
        ((oddParity saved.counts : ℚ) - (probe.counts.getD ∅).values.sum * rate) /
          (probe.counts.getD ∅).values.sum := by
      field_simp
    rw [hscale, abs_div, abs_of_pos hcast, div_le_div_iff₀ hcast (by linarith)]
    nlinarith

end stored

-- The hook writes to its copy only and conserves the shots, and whatever the calibration loop
-- saves, on any run, has the rate that was asked for, as near as the number of shots allows.
theorem demo_injection_near (rate : ℚ) (hrate : 0 ≤ rate ∧ rate ≤ 1) :
    (∀ (heap : DictHeap) (object : Nat), Histogram (heap.read object) →
      ∃ adjusted, injectDemoParityErrorsIn heap object rate =
          .ok (heap ++ [adjusted], heap.length) ∧
        injectDemoParityErrors (heap.read object) rate = .ok adjusted ∧
        Injected (heap.read object) rate adjusted) ∧
    ∀ env : Env, env.settings.calibrationDemoErrorRate = rate → ∀ cycles events rest,
      (runCalibrationLoop env cycles).run.Trace events rest →
      ∀ entry ∈ (logOf events).saved, ∃ handle probe, entry.1 = some (handle, probe) ∧
        (Histogram (probe.counts.getD ∅) →
          Injected (probe.counts.getD ∅) rate entry.2.counts ∧
            Near (probe.counts.getD ∅) rate entry.2.errorRate) := by
  constructor
  · intro heap object h
    obtain ⟨adjusted, hrun, hinjected⟩ := injectDemoParityErrors_injected h hrate
    refine ⟨adjusted, ?_, hrun, hinjected⟩
    rw [injectDemoParityErrorsIn_eq, hrun]
    rfl
  · rintro env rfl cycles events rest htrace entry hentry
    obtain ⟨hsound, -⟩ := runCalibrationLoop_logs env cycles htrace
    obtain ⟨⟨handle, probe, hprobe, hcomputed⟩, -⟩ := hsound entry hentry
    exact ⟨handle, probe, hprobe, fun h => ⟨hcomputed.injected h hrate, hcomputed.near h hrate⟩⟩

def balanced : Dict String Int := Dict.ofList [("00", 512), ("11", 512)]

theorem demo_injection_near_quarter :
    (∃ adjusted, injectDemoParityErrorsIn [balanced] 0 (1 / 4) = .ok ([balanced, adjusted], 1) ∧
      injectDemoParityErrors balanced (1 / 4) = .ok adjusted ∧
      Injected balanced (1 / 4) adjusted) ∧
    ∃ events row, (runCalibrationLoop
        ⟨{ calibrationDemoErrorRate := 1 / 4 }, default, 1⟩ 1).run.Returns events (.ok ()) ∧
      (logOf events).saved = [(some (⟨"1", "aer-simulator"⟩,
        ⟨"1", .completed, some balanced, none⟩), row)] ∧
      Injected balanced (1 / 4) row.counts ∧ Near balanced (1 / 4) row.errorRate := by
  obtain ⟨hcopies, hloops⟩ := demo_injection_near (1 / 4) (by norm_num)
  have hbalanced : Histogram balanced := ⟨by decide, by decide⟩
  obtain ⟨adjusted, hcopy, hrun, hinjected⟩ := hcopies [balanced] 0 hbalanced
  refine ⟨⟨adjusted, hcopy, hrun, hinjected⟩, ?_⟩
  let probe : ExperimentResult := ⟨"1", .completed, some balanced, none⟩
  have hcounts : probeCounts (1 / 4) probe = .ok adjusted := by
    unfold probeCounts
    rw [if_pos (by norm_num)]
    exact hrun
  obtain ⟨events, row, hreturns, -, hlog⟩ := calibration_saves_probe
    ⟨{ calibrationDemoErrorRate := 1 / 4 }, default, 1⟩ Nat.one_pos ⟨"1", "aer-simulator"⟩ probe
    (.inl rfl) hcounts 0
  obtain ⟨handle, found, hfound, hnear⟩ := hloops _ rfl 1 events _ hreturns
    (some (⟨"1", "aer-simulator"⟩, probe), row) (by rw [hlog]; exact List.mem_singleton_self _)
  cases hfound
  exact ⟨events, row, hreturns, by rw [hlog], hnear hbalanced⟩

end QuantumPlatform.Orchestrator
