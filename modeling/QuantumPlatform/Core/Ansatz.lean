import QuantumPlatform.Core.Energy
import QuantumPlatform.Quantum.Cascade

namespace QuantumPlatform.Core

open Python Quantum

noncomputable section

variable {n : ℕ} {satisfies : String → List String → Basis n → Bool}

theorem denote_cx_ket {control target : ℕ} (htarget : target < n) (hne : control ≠ target)
    (x : Basis n) : (Gate.cx control target).denote satisfies (ket x) =
      ket (if x.bit control then x.flip target else x) := by
  refine permute_ket (fun y => ?_) x
  by_cases hcontrol : y.bit control = true
  · simp only [hcontrol, if_true, Basis.bit_flip_of_ne hne, Basis.flip_flip htarget]
  · simp only [hcontrol, if_false, Bool.false_eq_true]

-- At zero angle a rotation does nothing.
theorem denote_ry_zero (q : ℕ) : (Gate.ry 0 q).denote satisfies = 1 := by
  refine LinearMap.ext fun ψ => funext fun y => ?_
  have hself : ψ (y.set q (y.bit q)) = ψ y := by rw [Basis.set_bit]
  simp only [Gate.denote]
  rw [single_apply, Module.End.one_apply, Fintype.sum_bool]
  cases hb : y.bit q with
  | false =>
      rw [hb] at hself
      simp [rotationY, hself]
  | true =>
      rw [hb] at hself
      simp [rotationY, hself]

theorem run_layer_zero {params : List ℝ} (hzero : ∀ theta ∈ params, theta = 0) :
    run satisfies (params.zipIdx.map fun entry => Gate.ry entry.1 entry.2) = 1 := by
  have hgates : ∀ gate ∈ params.zipIdx.map fun entry => Gate.ry entry.1 entry.2,
      gate.denote satisfies = 1 := by
    intro gate hmem
    obtain ⟨entry, hentry, rfl⟩ := List.mem_map.mp hmem
    rw [hzero entry.1 (List.fst_mem_of_mem_zipIdx hentry), denote_ry_zero]
  generalize params.zipIdx.map (fun entry => Gate.ry entry.1 entry.2) = gates at hgates
  induction gates with
  | nil => rfl
  | cons gate rest ih =>
      have hrest := ih fun other hmem => hgates other (List.mem_cons_of_mem gate hmem)
      rw [run, hrest, hgates gate List.mem_cons_self, one_mul]

-- The CX chain from qubit `k` down.
theorem run_chain {k : ℕ} (hk : k < n) (x : Basis n) :
    run satisfies ((List.range k).reverse.map fun target => Gate.cx (target + 1) target)
        (ket (Basis.cascade k x)) = ket (Basis.cascade 0 x) := by
  induction k with
  | zero => rfl
  | succ k ih =>
      rw [List.range_succ, List.reverse_concat, List.map_cons, run_cons,
        denote_cx_ket (by omega) (by omega), Basis.cascade_step hk, ih (by omega)]

-- The state in which exactly the occupied qubits are 1.
def occupation (n : ℕ) (initialState : List Bool) : Basis n := fun i =>
  initialState[i.val]?.getD false

theorem bit_occupation {initialState : List Bool} (hlength : initialState.length = n) (q : ℕ) :
    (occupation n initialState).bit q = initialState[q]?.getD false := by
  by_cases hq : q < n
  · rw [Basis.bit_of_lt hq, occupation]
  · rw [List.getElem?_eq_none (by omega)]
    simp [Basis.bit, hq]

def occupied (initialState : List Bool) : List ℕ :=
  (initialState.zipIdx.filter fun entry => entry.1).map Prod.snd

theorem nodup_occupied (initialState : List Bool) : (occupied initialState).Nodup := by
  have hsublist : (occupied initialState).Sublist (initialState.zipIdx.map Prod.snd) :=
    List.filter_sublist.map Prod.snd
  rw [List.zipIdx_map_snd] at hsublist
  exact hsublist.nodup List.nodup_range'

theorem mem_occupied (initialState : List Bool) (q : ℕ) :
    q ∈ occupied initialState ↔ initialState[q]? = some true := by
  simp [occupied, List.mem_zipIdx_iff_getElem?]

theorem flipAll_occupied (initialState : List Bool) :
    (Basis.ofNat n 0).flipAll (occupied initialState) = occupation n initialState := by
  refine Basis.ext_bit fun q hq => ?_
  rw [Basis.bit_flipAll _ _ hq, Basis.bit_ofNat hq, Nat.zero_testBit, Bool.xor_false,
    Basis.bit_of_lt hq, occupation]
  simp only [mem_occupied]
  cases initialState[q]? with
  | none => rfl
  | some bit => cases bit <;> rfl

-- The chain, as the builder writes it.
theorem chain_eq (n : ℕ) : ((List.range n).reverse.filter fun control => 0 < control).map
      (fun control => Gate.cx (Θ := ℝ) control (control - 1)) =
    (List.range (n - 1)).reverse.map fun target => Gate.cx (target + 1) target := by
  cases n with
  | zero => rfl
  | succ m =>
      have hpositive : ((List.range m).map Nat.succ).reverse.filter (fun control => 0 < control) =
          ((List.range m).map Nat.succ).reverse := by
        refine List.filter_eq_self.mpr fun control hmem => ?_
        obtain ⟨target, -, rfl⟩ := List.mem_map.mp (List.mem_reverse.mp hmem)
        exact decide_eq_true (Nat.succ_pos target)
      rw [List.range_succ_eq_map, List.reverse_cons, List.filter_append, hpositive]
      simp [List.map_reverse, Function.comp_def]

-- What the default parameters of run_vqe prepare: the cascade of the occupation.
theorem prepared_zero {initialState : List Bool} (hn : 1 ≤ n) :
    ∃ ansatz, buildAnsatz n (List.replicate (parameterCount n) (0 : ℝ)) initialState = .ok ansatz ∧
      prepared satisfies ansatz.gates = ket (Basis.cascade 0 (occupation n initialState)) := by
  have hlength : ¬(List.replicate (parameterCount n) (0 : ℝ)).length ≠ parameterCount n :=
    not_not.mpr List.length_replicate
  have hinvolutive : Function.Involutive (Basis.flipAll (n := n) (occupied initialState)) :=
    Basis.flipAll_flipAll _
  have htake : ∀ theta ∈ (List.replicate (parameterCount n) (0 : ℝ)).take n, theta = 0 :=
    fun _ hmem => List.eq_of_mem_replicate (List.mem_of_mem_take hmem)
  have hdrop : ∀ theta ∈ (List.replicate (parameterCount n) (0 : ℝ)).drop n, theta = 0 :=
    fun _ hmem => List.eq_of_mem_replicate (List.mem_of_mem_drop hmem)
  have hprepared : (initialState.zipIdx.filter fun entry => entry.1).map
      (fun entry => Gate.x (Θ := ℝ) entry.2) = (occupied initialState).map .x := by
    rw [occupied, List.map_map]
    rfl
  unfold buildAnsatz
  rw [if_neg hlength]
  refine ⟨_, rfl, ?_⟩
  unfold prepared
  rw [run_append, run_append, run_append, hprepared, run_xs (nodup_occupied initialState),
    permute_ket hinvolutive, flipAll_occupied, run_layer_zero htake, run_layer_zero hdrop,
    Module.End.one_apply, Module.End.one_apply, chain_eq]
  calc run satisfies ((List.range (n - 1)).reverse.map fun target => Gate.cx (target + 1) target)
        (ket (occupation n initialState))
      = run satisfies ((List.range (n - 1)).reverse.map fun target => Gate.cx (target + 1) target)
        (ket (Basis.cascade (n - 1) (occupation n initialState))) := by rw [Basis.cascade_last hn]
    _ = ket (Basis.cascade 0 (occupation n initialState)) := run_chain (by omega) _

theorem ket_injective {x y : Basis n} (h : ket x = ket y) : x = y := by
  by_contra hne
  have hone : ket y x = 1 := by rw [← h, ket_self]
  rw [ket_of_ne hne] at hone
  exact zero_ne_one hone

-- The reference survives the CX chain just when no qubit above the lowest is occupied.
theorem reference_prepared (molecule : MolecularHamiltonian)
    (satisfies : String → List String → Basis molecule.numQubits → Bool)
    (hoccupied : molecule.initialState ≠ []) :
    ∃ ansatz, buildAnsatz molecule.numQubits
        (List.replicate (parameterCount molecule.numQubits) (0 : ℝ)) molecule.initialState =
          .ok ansatz ∧
      (prepared satisfies ansatz.gates =
          ket (occupation molecule.numQubits molecule.initialState) ↔
        ∀ qubit, 0 < qubit → molecule.initialState[qubit]? ≠ some true) ∧
      ((∀ qubit, 0 < qubit → molecule.initialState[qubit]? ≠ some true) →
        ∀ weights : QuantumCircuit ℝ → Dict String ℝ,
          (∀ term ∈ molecule.terms, ∀ qc, buildMeasurementCircuit
            (List.replicate (parameterCount molecule.numQubits) (0 : ℝ)) term molecule = .ok qc →
              ExactCounts satisfies qc (weights qc)) →
          ∃ energy : ℝ,
            energyFromWeights (fun term => buildMeasurementCircuit
                (List.replicate (parameterCount molecule.numQubits) (0 : ℝ)) term molecule)
              (fun qc => (weights qc).items) molecule.terms 0 = .ok energy ∧
            (energy : ℂ) = braket (ket (occupation molecule.numQubits molecule.initialState))
              (hamiltonian molecule.numQubits molecule.terms
                (ket (occupation molecule.numQubits molecule.initialState)))) := by
  have hlength : molecule.initialState.length = molecule.numQubits :=
    molecule.initialState_length.resolve_left hoccupied
  have hbit : ∀ qubit, (occupation molecule.numQubits molecule.initialState).bit qubit = false ↔
      molecule.initialState[qubit]? ≠ some true := by
    intro qubit
    rw [bit_occupation hlength]
    cases molecule.initialState[qubit]? with
    | none => simp
    | some bit => cases bit <;> simp
  obtain ⟨ansatz, hansatz, hprepared⟩ := @prepared_zero molecule.numQubits satisfies
    molecule.initialState molecule.numQubits_pos
  have hiff : prepared satisfies ansatz.gates =
      ket (occupation molecule.numQubits molecule.initialState) ↔
        ∀ qubit, 0 < qubit → molecule.initialState[qubit]? ≠ some true := by
    rw [hprepared]
    constructor
    · intro h qubit hpos
      exact (hbit qubit).mp (Basis.cascade_eq_self_iff.mp (ket_injective h) qubit hpos)
    · intro h
      rw [Basis.cascade_eq_self_iff.mpr fun qubit hpos => (hbit qubit).mpr (h qubit hpos)]
  refine ⟨ansatz, hansatz, hiff, fun hlowest weights hexact => ?_⟩
  obtain ⟨energy, henergy, hvalue⟩ := energy_exact hansatz hexact
  exact ⟨energy, henergy, by rw [hvalue, hiff.mpr hlowest]⟩

-- The parity-mapped reference of two electrons in three orbitals loses its lowest qubit.
theorem reference_lost : ∃ molecule : MolecularHamiltonian,
    molecule.numQubits = 4 ∧ molecule.initialState = [true, true, false, false] ∧
    ∃ ansatz, buildAnsatz molecule.numQubits
        (List.replicate (parameterCount molecule.numQubits) (0 : ℝ)) molecule.initialState =
          .ok ansatz ∧
      prepared (fun _ _ _ => false) ansatz.gates =
        ket (occupation molecule.numQubits [false, true, false, false]) ∧
      prepared (fun _ _ _ => false) ansatz.gates ≠
        ket (occupation molecule.numQubits molecule.initialState) := by
  let molecule : MolecularHamiltonian :=
    { name := "lih", geometry := "Li-H, R=1.6 Angstrom",
      mapping := "STO-3G/RHF active space; parity mapping with two-qubit reduction",
      numQubits := 4, terms := [⟨1, Dict.ofList [(0, .Z)]⟩], nuclearRepulsion := 0,
      initialState := [true, true, false, false], numQubits_pos := by decide,
      terms_nonempty := by simp, terms_bounded := by decide, initialState_length := .inr rfl }
  obtain ⟨ansatz, hansatz, hprepared⟩ := @prepared_zero 4 (fun _ _ _ => false)
    [true, true, false, false] (by decide)
  have hcascade : Basis.cascade 0 (occupation 4 [true, true, false, false]) =
      occupation 4 [false, true, false, false] := by decide
  have hne : occupation 4 [false, true, false, false] ≠ occupation 4 [true, true, false, false] := by
    decide
  rw [hcascade] at hprepared
  refine ⟨molecule, rfl, rfl, ansatz, hansatz, hprepared, fun h => ?_⟩
  exact hne (ket_injective (hprepared.symm.trans h))

theorem reference_prepared_lowest : ∃ molecule : MolecularHamiltonian,
    molecule.initialState = [true, false] ∧ ∃ ansatz, buildAnsatz molecule.numQubits
        (List.replicate (parameterCount molecule.numQubits) (0 : ℝ)) molecule.initialState =
          .ok ansatz ∧
      prepared (fun _ _ _ => false) ansatz.gates =
        ket (occupation molecule.numQubits molecule.initialState) := by
  let molecule : MolecularHamiltonian :=
    { name := "lih", geometry := "", mapping := "", numQubits := 2,
      terms := [⟨1, Dict.ofList [(0, .Z)]⟩], nuclearRepulsion := 0, initialState := [true, false],
      numQubits_pos := by decide, terms_nonempty := by simp, terms_bounded := by decide,
      initialState_length := .inr rfl }
  obtain ⟨ansatz, hansatz, hiff, -⟩ := reference_prepared molecule (fun _ _ _ => false) (by decide)
  refine ⟨molecule, rfl, ansatz, hansatz, hiff.mpr fun qubit hpos => ?_⟩
  match qubit, hpos with
  | 1, _ => decide
  | q + 2, _ => simp [molecule]

end

end QuantumPlatform.Core
