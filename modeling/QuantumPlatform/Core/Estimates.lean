import QuantumPlatform.Core.Energy

namespace QuantumPlatform.Core

open Python

-- Counts of at least one shot over the bitstrings of `n` qubits.
structure Histogram (n : ℕ) (counts : Dict String Int) : Prop where
  keys : ∀ key ∈ counts.keys, key.length = n ∧ key.toList.all isBit = true
  nonneg : ∀ count ∈ counts.values, 0 ≤ count
  shots : 1 ≤ counts.values.sum

-- How many of the qubits read 1; qubit 0 is the last character.
def ones (qubits : List ℕ) (bitstring : String) : ℕ :=
  qubits.countP fun qubit => bitstring.toList.reverse[qubit]? = some '1'

-- The shots whose parity over the qubits is even, or odd.
def shotsOf (even : Bool) (qubits : List ℕ) (counts : Dict String Int) : Int :=
  ((counts.items.filter fun entry => decide (ones qubits entry.1 % 2 = 0) = even).map Prod.snd).sum

def estimate (qubits : List ℕ) (counts : Dict String Int) : ℚ :=
  (shotsOf true qubits counts - shotsOf false qubits counts) / counts.values.sum

variable {n : ℕ} {counts : Dict String Int} {qubits : List ℕ}

-- Below the length no index wraps around: the character is the one of the qubit.
theorem bitAt_of_lt {bitstring : List Char} {qubit : ℕ} (hqubit : qubit < bitstring.length) :
    ∃ bit, bitstring.reverse[qubit]? = some bit ∧ bitAt bitstring qubit = .ok bit := by
  have hget : bitstring[bitstring.length - 1 - qubit]? = bitstring.reverse[qubit]? :=
    (List.getElem?_reverse hqubit).symm
  have hsome : bitstring.reverse[qubit]? =
      some (bitstring.reverse.get ⟨qubit, by simpa using hqubit⟩) :=
    List.getElem?_eq_getElem _
  refine ⟨_, hsome, ?_⟩
  unfold bitAt
  simp only
  rw [if_pos hqubit, if_pos (by omega), hget, hsome]

theorem signOf_eq {bitstring : String} (hbound : ∀ qubit ∈ qubits, qubit < bitstring.length) :
    signOf bitstring qubits = .ok ((-1) ^ ones qubits bitstring) := by
  have hfold : ∀ start : ℤ, qubits.foldlM (fun sign qubit => do
      let bit ← bitAt bitstring.toList qubit
      return if bit = '1' then -sign else sign) start =
        (.ok (start * (-1) ^ ones qubits bitstring) : Except Exc ℤ) := by
    induction qubits with
    | nil =>
        intro start
        simp [ones]
        rfl
    | cons qubit rest ih =>
        intro start
        have hqubit : qubit < bitstring.toList.length := by
          rw [String.length_toList]
          exact hbound qubit List.mem_cons_self
        have hrest := ih fun other hmem => hbound other (List.mem_cons_of_mem qubit hmem)
        obtain ⟨bit, hget, hbit⟩ := bitAt_of_lt hqubit
        rw [List.foldlM_cons, hbit]
        refine (hrest _).trans (congrArg _ ?_)
        simp only [ones, List.countP_cons, hget]
        by_cases hone : bit = '1'
        · simp [hone, pow_succ]
        · simp [hone]
  unfold signOf
  rw [hfold, one_mul]

-- A sign for each shot is the even shots less the odd ones.
theorem sum_signs (qubits : List ℕ) (counts : Dict String Int) :
    (counts.items.map fun entry => ((-1 : ℤ) ^ ones qubits entry.1) * entry.2).sum =
      shotsOf true qubits counts - shotsOf false qubits counts := by
  unfold shotsOf
  induction counts.items with
  | nil => rfl
  | cons entry rest ih =>
      rw [List.map_cons, List.sum_cons, ih]
      rcases Nat.mod_two_eq_zero_or_one (ones qubits entry.1) with heven | hodd
      · rw [(Nat.even_iff.mpr heven).neg_one_pow]
        simp [heven]
        ring
      · rw [(Nat.odd_iff.mpr hodd).neg_one_pow]
        simp [hodd]
        ring

theorem shotsOf_nonneg (h : Histogram n counts) (even : Bool) : 0 ≤ shotsOf even qubits counts := by
  refine List.sum_nonneg fun count hmem => ?_
  obtain ⟨entry, hentry, rfl⟩ := List.mem_map.mp hmem
  exact h.nonneg _ (List.mem_map_of_mem (List.mem_filter.mp hentry).1)

theorem shotsOf_add (qubits : List ℕ) (counts : Dict String Int) :
    shotsOf true qubits counts + shotsOf false qubits counts = counts.values.sum := by
  unfold shotsOf Dict.values
  induction counts.items with
  | nil => rfl
  | cons entry rest ih =>
      rw [List.map_cons, List.sum_cons, ← ih]
      rcases Nat.mod_two_eq_zero_or_one (ones qubits entry.1) with heven | hodd
      · simp [heven]
        ring
      · simp [hodd]
        ring

theorem pauliExpectation_estimate {term : PauliTerm} (h : Histogram n counts)
    (hbound : ∀ qubit ∈ term.qubits.keys, qubit < n) :
    pauliExpectationFromCounts counts term = .ok (estimate term.qubits.keys counts) := by
  have hshots := h.shots
  let signs : String → ℤ := fun key => (-1) ^ ones term.qubits.keys key
  have hsigns : ∀ entry ∈ counts.items.map fun entry => (entry.1, (entry.2 : ℚ)),
      signOf entry.1 term.qubits.keys = .ok (signs entry.1) := by
    intro entry hmem
    obtain ⟨item, hitem, rfl⟩ := List.mem_map.mp hmem
    have hlength := (h.keys item.1 (List.mem_map_of_mem hitem)).1
    exact signOf_eq fun qubit hqubit => by rw [hlength]; exact hbound qubit hqubit
  have htotal : ((counts.items.map fun entry => (entry.1, (entry.2 : ℚ))).map Prod.snd).sum =
      (counts.values.sum : ℚ) := by
    rw [Dict.values, List.map_map, Int.cast_list_sum, List.map_map]
    rfl
  have hnonzero : (counts.values.sum : ℚ) ≠ 0 := by
    have hne : counts.values.sum ≠ 0 := by omega
    exact_mod_cast hne
  have hmean : ((counts.items.map fun entry => (entry.1, (entry.2 : ℚ))).map fun entry =>
      (signs entry.1 : ℚ) * entry.2).sum =
        shotsOf true term.qubits.keys counts - shotsOf false term.qubits.keys counts := by
    rw [← Int.cast_sub, ← sum_signs, Int.cast_list_sum, List.map_map, List.map_map]
    refine congrArg List.sum (List.map_congr_left fun entry _ => ?_)
    simp only [Function.comp_apply, signs]
    push_cast
    rfl
  rw [pauliExpectationFromCounts_eq, expectationFromWeights]
  simp only [htotal]
  rw [if_neg hnonzero, foldlM_signs hsigns, hmean]
  change Except.ok _ = _
  rw [zero_add, estimate]

theorem abs_estimate_le (h : Histogram n counts) : |estimate qubits counts| ≤ 1 := by
  have hshots := h.shots
  have hadd := shotsOf_add qubits counts
  have heven := @shotsOf_nonneg n counts qubits h true
  have hodd := @shotsOf_nonneg n counts qubits h false
  have habs : |shotsOf true qubits counts - shotsOf false qubits counts| ≤ counts.values.sum := by
    rw [abs_le]
    constructor
    · omega
    · omega
  have hpos : (0 : ℚ) < counts.values.sum := by exact_mod_cast hshots
  rw [estimate, abs_div, abs_of_pos hpos, div_le_one hpos]
  exact_mod_cast habs

section energy

def PauliTerm.isIdentity (term : PauliTerm) : Bool := term.qubits.items.isEmpty

def measuredTerms (terms : List PauliTerm) : List PauliTerm :=
  terms.filter fun term => !term.isIdentity

-- The energy from one histogram for each measured term: an identity counts 1, any other
-- term its even shots less its odd ones.
def energyOf (terms : List PauliTerm) (counts : List (Dict String Int)) : ℚ :=
  ((terms.filter fun term => term.isIdentity).map PauliTerm.coefficient).sum +
    (((measuredTerms terms).zip counts).map fun entry =>
      entry.1.coefficient * estimate entry.1.qubits.keys entry.2).sum

variable {term : PauliTerm} {terms : List PauliTerm} {histograms : List (Dict String Int)}

theorem PauliTerm.items_ne_nil (h : term.isIdentity = false) : term.qubits.items ≠ [] := by
  intro hempty
  simp [PauliTerm.isIdentity, hempty] at h

theorem isIdentity_measuredTerms (i : Fin (measuredTerms terms).length) :
    ((measuredTerms terms).get i).isIdentity = false := by
  have hmeasured := (List.mem_filter.mp (List.get_mem (measuredTerms terms) i)).2
  rwa [Bool.not_eq_true'] at hmeasured

theorem measuredTerms_identity (h : term.isIdentity = true) :
    measuredTerms (term :: terms) = measuredTerms terms := by
  simp [measuredTerms, h]

theorem measuredTerms_measured (h : term.isIdentity = false) :
    measuredTerms (term :: terms) = term :: measuredTerms terms := by
  simp [measuredTerms, h]

theorem energyOf_identity (h : term.isIdentity = true) :
    energyOf (term :: terms) histograms = term.coefficient + energyOf terms histograms := by
  simp [energyOf, measuredTerms_identity h, h, add_assoc]

theorem energyOf_measured (h : term.isIdentity = false) :
    energyOf (term :: terms) (counts :: histograms) =
      term.coefficient * estimate term.qubits.keys counts + energyOf terms histograms := by
  simp [energyOf, measuredTerms_measured h, h]
  ring

-- No histogram takes the energy beyond the sum of the coefficients.
theorem abs_energyOf_le (hlength : histograms.length = (measuredTerms terms).length)
    (hcounts : ∀ counts ∈ histograms, Histogram n counts) :
    |energyOf terms histograms| ≤ (terms.map fun term => |term.coefficient|).sum := by
  induction terms generalizing histograms with
  | nil => simp [energyOf, measuredTerms]
  | cons term rest ih =>
      rw [List.map_cons, List.sum_cons]
      cases hidentity : term.isIdentity with
      | true =>
          rw [measuredTerms_identity hidentity] at hlength
          rw [energyOf_identity hidentity]
          exact (abs_add_le _ _).trans (add_le_add_right (ih hlength hcounts) _)
      | false =>
          rw [measuredTerms_measured hidentity, List.length_cons] at hlength
          cases histograms with
          | nil => cases hlength
          | cons counts others =>
              have hrest := ih (Nat.succ.inj hlength) fun other hmem =>
                hcounts other (List.mem_cons_of_mem counts hmem)
              have hfirst : |term.coefficient * estimate term.qubits.keys counts| ≤
                  |term.coefficient| := by
                rw [abs_mul]
                exact mul_le_of_le_one_right (abs_nonneg _)
                  (abs_estimate_le (hcounts counts List.mem_cons_self))
              rw [energyOf_measured hidentity]
              exact (abs_add_le _ _).trans (add_le_add hfirst hrest)

end energy

end QuantumPlatform.Core
