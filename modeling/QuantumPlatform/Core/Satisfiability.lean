import QuantumPlatform.Core.Expressions.Theorems
import QuantumPlatform.Process.Fallible

namespace QuantumPlatform.Core

open Parsing Process Python

namespace BooleanSearchProblem

theorem mem_product {n : ℕ} {bits : List Bool} : bits ∈ product n ↔ bits.length = n := by
  induction n generalizing bits with
  | zero => simp [product]
  | succ n ih =>
      cases bits with
      | nil => simp [product]
      | cons bit rest => cases bit <;> simp [product, ih]

theorem nodup_product (n : ℕ) : (product n).Nodup := by
  induction n with
  | zero => simp [product]
  | succ n ih =>
      have hcons : ∀ bit : Bool, ((product n).map (bit :: ·)).Nodup :=
        fun bit => ih.map fun _ _ h => (List.cons.inj h).2
      have hdisjoint : ∀ first ∈ (product n).map (false :: ·), ∀ second ∈ (product n).map (true :: ·),
          first ≠ second := by
        intro first hfirst second hsecond heq
        obtain ⟨_, -, rfl⟩ := List.mem_map.mp hfirst
        obtain ⟨_, -, rfl⟩ := List.mem_map.mp hsecond
        cases heq
      have happend := List.nodup_append.mpr ⟨hcons false, hcons true, hdisjoint⟩
      simpa [product] using happend

theorem bitstring_injective : Function.Injective bitstring := by
  have hchar : Function.Injective fun bit : Bool => if bit then '1' else '0' := by
    intro first second h
    cases first <;> cases second <;> simp_all
  intro first second h
  exact List.reverse_injective (hchar.list_map (String.ofList_injective h))

-- `dict(zip(variables, bits))`, as a function.
def assigned (variableNames : List String) (bits : List Bool) : Dict String Bool :=
  Dict.ofList (variableNames.zip bits)

-- The string that spells an assignment: the character for variables[i] is the one at
-- place i + 1 from the right.
def Encodes (variableNames : List String) (assignment : String → Bool) (text : String) : Prop :=
  text.length = variableNames.length ∧
    ∀ (i : ℕ) (name : String), variableNames[i]? = some name →
      text.toList.reverse[i]? = some (if assignment name then '1' else '0')

variable {variableNames : List String} {bits : List Bool}

theorem keys_assigned (hdistinct : variableNames.Nodup) (hlength : bits.length = variableNames.length) :
    (assigned variableNames bits).keys = variableNames := by
  have hkeys : (variableNames.zip bits).map Prod.fst = variableNames :=
    List.map_fst_zip hlength.ge
  have hnodup : ((variableNames.zip bits).map Prod.fst).Nodup := by rwa [hkeys]
  rw [assigned, Dict.keys, Dict.items_ofList hnodup, hkeys]

theorem get_assigned (hdistinct : variableNames.Nodup) (hlength : bits.length = variableNames.length)
    {i : ℕ} {name : String} (hname : variableNames[i]? = some name) :
    some ((assigned variableNames bits).get name false) = bits[i]? := by
  have hkeys : (variableNames.zip bits).map Prod.fst = variableNames :=
    List.map_fst_zip hlength.ge
  have hnodup : ((variableNames.zip bits).map Prod.fst).Nodup := by rwa [hkeys]
  obtain ⟨hi, -⟩ := List.getElem?_eq_some_iff.mp hname
  have hbit : bits[i]? = some (bits.get ⟨i, hlength ▸ hi⟩) := List.getElem?_eq_getElem _
  have hmem : (name, bits.get ⟨i, hlength ▸ hi⟩) ∈ (assigned variableNames bits).items := by
    rw [assigned, Dict.items_ofList hnodup]
    refine List.mem_of_getElem? (i := i) ?_
    rw [List.getElem?_zip_eq_some]
    exact ⟨hname, hbit⟩
  rw [Dict.get, (Dict.mem_items_iff _).mp hmem, hbit, Option.getD_some]

theorem bitstring_encodes (hdistinct : variableNames.Nodup)
    (hlength : bits.length = variableNames.length) :
    Encodes variableNames (fun name => (assigned variableNames bits).get name false)
      (bitstring bits) := by
  constructor
  · rw [bitstring, String.length_ofList, List.length_map, List.length_reverse, hlength]
  · intro i name hname
    rw [bitstring, String.toList_ofList, ← List.map_reverse, List.reverse_reverse, List.getElem?_map,
      ← get_assigned hdistinct hlength hname, Option.map_some]

-- Only one string spells an assignment.
theorem Encodes.eq {assignment : String → Bool} {first second : String}
    (hfirst : Encodes variableNames assignment first)
    (hsecond : Encodes variableNames assignment second) : first = second := by
  have hreversed : first.toList.reverse = second.toList.reverse := by
    refine List.ext_getElem? fun i => ?_
    by_cases hi : i < variableNames.length
    · have hname := List.getElem?_eq_getElem hi
      rw [hfirst.2 i _ hname, hsecond.2 i _ hname]
    · rw [List.getElem?_eq_none, List.getElem?_eq_none]
      · rw [List.length_reverse, String.length_toList, hsecond.1]
        omega
      · rw [List.length_reverse, String.length_toList, hfirst.1]
        omega
  exact String.toList_injective (List.reverse_injective hreversed)

section counting

variable {tree : Expression} {eval : String → Dict String Bool → Except Exc Bool} {expression : String}

-- The bits of the satisfying assignments, in the order of the product.
def satisfying (variableNames : List String) (tree : Expression) : List (List Bool) :=
  (product variableNames.length).filter fun bits =>
    tree.value fun name => (assigned variableNames bits).get name false

theorem countSolutions_eq
    (heval : ∀ bits, bits.length = variableNames.length →
      eval expression (assigned variableNames bits) =
        .ok (tree.value fun name => (assigned variableNames bits).get name false)) :
    (BooleanSearchProblem.mk variableNames expression).countSolutions eval =
      .ok ((satisfying variableNames tree).map bitstring) := by
  have hmap : (product variableNames.length).mapM (fun bits => do
      let assignment := Dict.ofList (variableNames.zip bits)
      return (bits, ← eval expression assignment)) =
      (.ok ((product variableNames.length).map fun bits =>
        (bits, tree.value fun name => (assigned variableNames bits).get name false)) :
          Except Exc (List (List Bool × Bool))) := by
    refine mapM_eq_map fun bits hmem => ?_
    have hbits := heval bits (mem_product.mp hmem)
    rw [assigned] at hbits
    simp only [hbits]
    rfl
  unfold countSolutions numQubits
  rw [hmap]
  change Except.ok _ = _
  rw [List.filter_map, List.map_map]
  rfl

theorem nodup_solutions : ((satisfying variableNames tree).map bitstring).Nodup :=
  ((nodup_product _).filter _).map bitstring_injective

-- Every assignment has its row of the product.
theorem exists_assigned (hdistinct : variableNames.Nodup) (assignment : String → Bool) :
    ∃ bits, bits.length = variableNames.length ∧ ∀ name ∈ variableNames,
      (assigned variableNames bits).get name false = assignment name := by
  have hlength : (variableNames.map assignment).length = variableNames.length := List.length_map _
  refine ⟨variableNames.map assignment, hlength, fun name hmem => ?_⟩
  obtain ⟨i, hname⟩ := List.mem_iff_getElem?.mp hmem
  have hget := get_assigned hdistinct hlength hname
  rw [List.getElem?_map, hname, Option.map_some] at hget
  exact Option.some.inj hget

theorem mem_solutions (hdistinct : variableNames.Nodup)
    (hnames : ∀ name ∈ tree.names, name ∈ variableNames) (assignment : String → Bool) :
    tree.value assignment = true ↔
      ∃ text ∈ (satisfying variableNames tree).map bitstring,
        Encodes variableNames assignment text := by
  obtain ⟨bits, hlength, hbits⟩ := exists_assigned hdistinct assignment
  have hvalue : tree.value assignment =
      tree.value fun name => (assigned variableNames bits).get name false :=
    value_congr fun name hmem => (hbits name (hnames name hmem)).symm
  have hencodes : Encodes variableNames assignment (bitstring bits) := by
    obtain ⟨hsize, hchars⟩ := bitstring_encodes hdistinct hlength
    refine ⟨hsize, fun i name hname => ?_⟩
    have hsame := hbits name (List.mem_of_getElem? hname)
    exact (hchars i name hname).trans (congrArg (fun bit : Bool => some (if bit then '1' else '0')) hsame)
  constructor
  · intro h
    refine ⟨bitstring bits, List.mem_map_of_mem ?_, hencodes⟩
    exact List.mem_filter.mpr ⟨mem_product.mpr hlength, hvalue ▸ h⟩
  · rintro ⟨text, hmem, htext⟩
    obtain ⟨found, hfound, rfl⟩ := List.mem_map.mp hmem
    obtain rfl := bitstring_injective (htext.eq hencodes)
    rw [hvalue]
    exact (List.mem_filter.mp hfound).2

theorem encodes_of_mem (hdistinct : variableNames.Nodup) {text : String}
    (hmem : text ∈ (satisfying variableNames tree).map bitstring) :
    ∃ assignment, Encodes variableNames assignment text := by
  obtain ⟨bits, hbits, rfl⟩ := List.mem_map.mp hmem
  exact ⟨_, bitstring_encodes hdistinct (mem_product.mp (List.mem_filter.mp hbits).1)⟩

theorem solutions_eq_nil_iff (hdistinct : variableNames.Nodup)
    (hnames : ∀ name ∈ tree.names, name ∈ variableNames) :
    (satisfying variableNames tree).map bitstring = [] ↔
      ∀ assignment, tree.value assignment = false := by
  constructor
  · intro h assignment
    by_contra hvalue
    obtain ⟨text, hmem, -⟩ := (mem_solutions hdistinct hnames assignment).mp
      (Bool.not_eq_false _ ▸ hvalue)
    rw [h] at hmem
    cases hmem
  · intro h
    rw [List.map_eq_nil_iff]
    refine List.filter_eq_nil_iff.mpr fun bits _ => ?_
    rw [h]
    exact Bool.false_ne_true

end counting

end BooleanSearchProblem

end QuantumPlatform.Core
