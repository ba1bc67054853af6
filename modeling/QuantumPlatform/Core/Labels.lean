import QuantumPlatform.Core.Molecules
import Mathlib.Algebra.Order.Group.Abs

namespace QuantumPlatform.Core

open Python

def Pauli.ofChar : Char → Option Pauli
  | 'X' => some .X
  | 'Y' => some .Y
  | 'Z' => some .Z
  | _ => none

-- `sorted(unknown)`, printed.
def unknownText (paulis : List Char) : String :=
  let unknown := (paulis.filter fun pauli => (Pauli.ofChar pauli).isNone).dedup
  let sorted := unknown.mergeSort fun first second => decide (first ≤ second)
  "[" ++ ", ".intercalate (sorted.map fun pauli => "'" ++ pauli.toString ++ "'") ++ "]"

-- The checks of a PauliTerm. A qubit is an int until it is known not to be negative.
def PauliTerm.new (coefficient : ℚ) (qubits : Dict ℤ Char) : Except Exc PauliTerm :=
  if qubits.keys.any fun qubit => qubit < 0 then
    .error (Exc.valueError "qubit indexes must be non-negative")
  else
    match qubits.items.mapM fun entry => (Pauli.ofChar entry.2).map fun pauli => (entry.1.toNat, pauli) with
    | some entries => .ok ⟨coefficient, Dict.ofList entries⟩
    | none =>
        .error (Exc.valueError ("unknown Pauli operators: " ++ unknownText qubits.values))

-- What label_iter yields beside the label: a complex number, and how it prints.
structure RawCoefficient where
  real : ℚ
  imag : ℚ
  text : String

-- One turn of the loop of _generate_molecule.
def termOfLabel (numQubits : Nat) (label : String) (raw : RawCoefficient) : Except Exc PauliTerm :=
  if |raw.imag| > 1 / 10 ^ 10 then
    .error (Exc.valueError ("non-real coefficient for " ++ label ++ ": " ++ raw.text))
  else
    let entries := label.toList.zipIdx.filter fun entry => entry.1 ≠ 'I'
    PauliTerm.new raw.real
      (Dict.ofList (entries.map fun entry => ((numQubits : ℤ) - 1 - entry.2, entry.1)))

section keys

theorem map_fst_of_mapM {items : List (ℤ × Char)} {entries : List (ℕ × Pauli)}
    (h : (items.mapM fun entry => (Pauli.ofChar entry.2).map fun pauli => (entry.1.toNat, pauli)) =
      some entries) : entries.map Prod.fst = items.map fun entry => entry.1.toNat := by
  induction items generalizing entries with
  | nil =>
      obtain rfl : [] = entries := Option.some.inj h
      rfl
  | cons item rest ih =>
      rw [List.mapM_cons] at h
      obtain ⟨first, hfirst, h⟩ := Option.bind_eq_some_iff.mp h
      obtain ⟨others, hothers, h⟩ := Option.bind_eq_some_iff.mp h
      obtain ⟨pauli, -, rfl⟩ := Option.map_eq_some_iff.mp hfirst
      obtain rfl := Option.some.inj h
      rw [List.map_cons, List.map_cons, ih hothers]

-- A term keeps the qubits it was given.
theorem keys_of_new {coefficient : ℚ} {qubits : Dict ℤ Char} {term : PauliTerm}
    (h : PauliTerm.new coefficient qubits = .ok term) :
    (∀ qubit ∈ qubits.keys, 0 ≤ qubit) ∧ term.qubits.keys = qubits.keys.map Int.toNat := by
  unfold PauliTerm.new at h
  by_cases hnegative : qubits.keys.any (fun qubit => qubit < 0) = true
  · rw [if_pos hnegative] at h
    cases h
  · have hnonneg : ∀ qubit ∈ qubits.keys, 0 ≤ qubit := by
      intro qubit hmem
      by_contra hlt
      exact hnegative (List.any_eq_true.mpr ⟨qubit, hmem, decide_eq_true (not_le.mp hlt)⟩)
    rw [if_neg hnegative] at h
    split at h
    · rename_i entries hentries
      obtain rfl := Except.ok.inj h
      have hkeys := map_fst_of_mapM hentries
      have hmap : entries.map Prod.fst = qubits.keys.map Int.toNat := by
        rw [hkeys, Dict.keys, List.map_map]
        rfl
      have hnodup : (entries.map Prod.fst).Nodup := by
        rw [hmap]
        refine List.Nodup.map_on (fun first hfirst second hsecond hsame => ?_) qubits.nodup
        have hpos := hnonneg first hfirst
        have hpos' := hnonneg second hsecond
        omega
      exact ⟨hnonneg, by rw [Dict.keys, Dict.items_ofList hnodup, hmap]⟩
    · cases h

-- The positions of a bitstring that belong to the qubits are those where the label says
-- something else than I.
theorem termOfLabel_positions {numQubits : ℕ} {label : String} {raw : RawCoefficient}
    {term : PauliTerm} (h : termOfLabel numQubits label raw = .ok term) (position : ℕ) :
    (∃ qubit ∈ term.qubits.keys, qubit < numQubits ∧ numQubits - 1 - qubit = position) ↔
      ∃ pauli, label.toList[position]? = some pauli ∧ pauli ≠ 'I' := by
  unfold termOfLabel at h
  by_cases himag : |raw.imag| > 1 / 10 ^ 10
  · rw [if_pos himag] at h
    cases h
  · rw [if_neg himag] at h
    obtain ⟨hnonneg, hkeys⟩ := keys_of_new h
    have hqubits : (Dict.ofList ((label.toList.zipIdx.filter fun entry => entry.1 ≠ 'I').map
        fun entry => ((numQubits : ℤ) - 1 - entry.2, entry.1))).keys =
        (label.toList.zipIdx.filter fun entry => entry.1 ≠ 'I').map
          fun entry => (numQubits : ℤ) - 1 - entry.2 := by
      have hindices : ((label.toList.zipIdx.filter fun entry => entry.1 ≠ 'I').map Prod.snd).Nodup := by
        have hsublist : ((label.toList.zipIdx.filter fun entry => entry.1 ≠ 'I').map Prod.snd).Sublist
            (label.toList.zipIdx.map Prod.snd) := List.filter_sublist.map Prod.snd
        rw [List.zipIdx_map_snd] at hsublist
        exact hsublist.nodup List.nodup_range'
      have hnodup := hindices.map (f := fun index : ℕ => (numQubits : ℤ) - 1 - index) (by
        intro first second hsame
        simp only at hsame
        omega)
      rw [List.map_map] at hnodup
      rw [Dict.keys, Dict.items_ofList (by rw [List.map_map]; exact hnodup), List.map_map]
      rfl
    rw [hqubits] at hkeys hnonneg
    rw [hkeys]
    simp only [List.mem_map, List.mem_filter, decide_eq_true_eq, Prod.exists,
      List.mem_zipIdx_iff_getElem?] at hnonneg ⊢
    constructor
    · rintro ⟨_, ⟨_, ⟨pauli, index, hentry, rfl⟩, rfl⟩, hlt, hposition⟩
      have hpos := hnonneg _ ⟨pauli, index, hentry, rfl⟩
      obtain rfl : index = position := by omega
      exact ⟨pauli, hentry⟩
    · rintro ⟨pauli, hentry⟩
      have hpos := hnonneg _ ⟨pauli, position, hentry, rfl⟩
      exact ⟨_, ⟨_, ⟨pauli, position, hentry, rfl⟩, rfl⟩, by omega, by omega⟩

end keys

end QuantumPlatform.Core
