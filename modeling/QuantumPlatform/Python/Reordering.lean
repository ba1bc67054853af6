import QuantumPlatform.Process.Fallible
import QuantumPlatform.Python.Compare
import QuantumPlatform.Python.Dumps
import Mathlib.Data.Option.Basic

namespace QuantumPlatform.Python

open Process Json

-- Values that differ only in the order of keys, at any depth: two neighbours change places
-- somewhere, any number of times.
inductive Reordered : Json → Json → Prop where
  | same (value : Json) : Reordered value value
  | trans {first second third : Json} :
      Reordered first second → Reordered second third → Reordered first third
  | swap (before after : List (String × Json)) {first second : String × Json} :
      first.1 ≠ second.1 → Reordered (.obj (before ++ first :: second :: after))
        (.obj (before ++ second :: first :: after))
  | item (before after : List Json) {first second : Json} : Reordered first second →
      Reordered (.arr (before ++ first :: after)) (.arr (before ++ second :: after))
  | field (before after : List (String × Json)) (name : String) {first second : Json} :
      Reordered first second → Reordered (.obj (before ++ (name, first) :: after))
        (.obj (before ++ (name, second) :: after))

section sorting

variable {κ α : Type} [LinearOrder κ] {key : α → κ} {first second : α}

-- Where two keys differ, it does not matter which is put in its place first.
theorem orderedInsert_comm (h : key first ≠ key second) (items : List α) :
    (items.orderedInsert (fun left right => key left ≤ key right) second).orderedInsert
        (fun left right => key left ≤ key right) first =
      (items.orderedInsert (fun left right => key left ≤ key right) first).orderedInsert
        (fun left right => key left ≤ key right) second := by
  induction items with
  | nil =>
      rcases lt_or_gt_of_ne h with hlt | hlt
      · simp [hlt.le, hlt.not_ge]
      · simp [hlt.le, hlt.not_ge]
  | cons item items ih =>
      by_cases hfirst : key first ≤ key item
      · by_cases hsecond : key second ≤ key item
        · rcases lt_or_gt_of_ne h with hlt | hlt
          · simp [hfirst, hsecond, hlt.le, hlt.not_ge]
          · simp [hfirst, hsecond, hlt.le, hlt.not_ge]
        · have hlt : key first < key second := hfirst.trans_lt (not_le.mp hsecond)
          simp [hfirst, hsecond, hlt.not_ge]
      · by_cases hsecond : key second ≤ key item
        · have hlt : key second < key first := hsecond.trans_lt (not_le.mp hfirst)
          simp [hfirst, hsecond, hlt.not_ge]
        · simp [hfirst, hsecond, ih]

theorem insertionSort_swap (h : key first ≠ key second) (before after : List α) :
    (before ++ first :: second :: after).insertionSort (fun left right => key left ≤ key right) =
      (before ++ second :: first :: after).insertionSort
        (fun left right => key left ≤ key right) := by
  induction before with
  | nil => exact orderedInsert_comm h _
  | cons item before ih =>
      rw [List.cons_append, List.cons_append, List.insertionSort_cons, List.insertionSort_cons, ih]

end sorting

theorem Reordered.dumps_eq (repr : Json → String) {value other : Json}
    (h : Reordered value other) : dumps repr value = dumps repr other := by
  induction h with
  | same value => rfl
  | trans _ _ ihfirst ihsecond => exact ihfirst.trans ihsecond
  | @swap before after first second hne =>
      have hsort := @insertionSort_swap _ _ _ Prod.fst (first.1, dumps repr first.2)
        (second.1, dumps repr second.2) hne (before.map fun field => (field.1, dumps repr field.2))
        (after.map fun field => (field.1, dumps repr field.2))
      simp only [dumps, dumpsFields_eq_map, List.map_append, List.map_cons, hsort]
  | item before after _ ih =>
      simp only [dumps, dumpsItems_eq_map, List.map_append, List.map_cons, ih]
  | field before after name _ ih =>
      simp only [dumps, dumpsFields_eq_map, List.map_append, List.map_cons, ih]

section lookup

theorem findField_append (before after : List (String × Json)) (name : String) :
    findField (before ++ after) name = (findField before name).or (findField after name) := by
  simp only [findField, List.find?_append, Option.map_or]

theorem findField_cons (field : String × Json) (fields : List (String × Json)) (name : String) :
    findField (field :: fields) name =
      if field.1 = name then some field.2 else findField fields name := by
  unfold findField
  by_cases h : field.1 = name
  · rw [List.find?_cons_of_pos (by simpa using h), if_pos h]
    rfl
  · rw [List.find?_cons_of_neg (by simpa using h), if_neg h]

theorem findField_swap {first second : String × Json} (h : first.1 ≠ second.1)
    (before after : List (String × Json)) (name : String) :
    findField (before ++ first :: second :: after) name =
      findField (before ++ second :: first :: after) name := by
  simp only [findField_append, findField_cons]
  by_cases hfirst : first.1 = name
  · rw [if_pos hfirst, if_neg fun hsecond => h (hfirst.trans hsecond.symm), if_pos hfirst]
  · rw [if_neg hfirst, if_neg hfirst]

-- A lookup finds the value of the field in both, or the same in both.
theorem findField_field (before after : List (String × Json)) (field name : String)
    (first second : Json) :
    findField (before ++ (field, first) :: after) name =
        findField (before ++ (field, second) :: after) name ∨
      findField (before ++ (field, first) :: after) name = some first ∧
        findField (before ++ (field, second) :: after) name = some second := by
  simp only [findField_append, findField_cons]
  cases findField before name with
  | some value => exact .inl rfl
  | none =>
      by_cases hname : field = name
      · exact .inr ⟨by simp [hname], by simp [hname]⟩
      · exact .inl (by simp [hname])

end lookup

-- What two values have in common that differ in the order of keys only.
inductive Matches : Json → Json → Prop where
  | same (value : Json) : Matches value value
  | arr {items others : List Json} :
      List.Forall₂ Reordered items others → Matches (.arr items) (.arr others)
  | obj {fields others : List (String × Json)} : fields.length = others.length →
      (∀ name, Option.Rel Reordered (findField fields name) (findField others name)) →
      Matches (.obj fields) (.obj others)

theorem forall₂_same (items : List Json) : List.Forall₂ Reordered items items :=
  List.forall₂_same.mpr fun value _ => .same value

theorem optionRel_same (found : Option Json) : Option.Rel Reordered found found := by
  cases found with
  | none => exact .none
  | some value => exact .some (.same value)

theorem optionRel_trans {first second third : Option Json} (h : Option.Rel Reordered first second)
    (h' : Option.Rel Reordered second third) : Option.Rel Reordered first third := by
  cases h with
  | none => exact h'
  | some hvalue =>
      cases h' with
      | some hvalue' => exact .some (hvalue.trans hvalue')

theorem forall₂_trans {first second third : List Json} (h : List.Forall₂ Reordered first second)
    (h' : List.Forall₂ Reordered second third) : List.Forall₂ Reordered first third := by
  induction h generalizing third with
  | nil => exact h'
  | cons hvalue _ ih =>
      cases h' with
      | cons hvalue' hrest => exact .cons (hvalue.trans hvalue') (ih hrest)

theorem Reordered.matches {value other : Json} (h : Reordered value other) :
    Matches value other := by
  induction h with
  | same value => exact .same value
  | trans _ _ ihfirst ihsecond =>
      cases ihfirst with
      | same => exact ihsecond
      | arr hitems =>
          cases ihsecond with
          | same => exact .arr hitems
          | arr hothers => exact .arr (forall₂_trans hitems hothers)
      | obj hlength hfields =>
          cases ihsecond with
          | same => exact .obj hlength hfields
          | obj hlength' hothers =>
              exact .obj (hlength.trans hlength') fun name =>
                optionRel_trans (hfields name) (hothers name)
  | swap before after hne =>
      refine .obj (by simp) fun name => ?_
      rw [findField_swap hne]
      exact optionRel_same _
  | item before after hvalue _ =>
      exact .arr (List.rel_append (forall₂_same before) (.cons hvalue (forall₂_same after)))
  | field before after name hvalue _ =>
      refine .obj (by simp) fun other => ?_
      rcases findField_field before after name other _ _ with hequal | ⟨hfirst, hsecond⟩
      · rw [hequal]
        exact optionRel_same _
      · rw [hfirst, hsecond]
        exact .some hvalue

theorem Reordered.arr {items others : List Json} (h : List.Forall₂ Reordered items others) :
    Reordered (.arr items) (.arr others) := by
  have hstep : ∀ before, Reordered (.arr (before ++ items)) (.arr (before ++ others)) := by
    induction h with
    | nil => exact fun _ => .same _
    | @cons item other items others hvalue _ ih =>
        intro before
        have hhead := Reordered.item before items hvalue
        have htail := ih (before ++ [other])
        rw [List.append_assoc, List.append_assoc] at htail
        exact hhead.trans htail
  exact hstep []

section comparing

theorem equalsFields_eq_all (fields others : List (String × Json)) :
    equalsFields fields others = fields.all fun field =>
      match findField others field.1 with
      | some other => equals field.2 other
      | none => false := by
  induction fields with
  | nil => rfl
  | cons field fields ih =>
      rw [List.all_cons, ← ih]
      rfl

theorem equalsItems_append (before first second : List Json) (others : List Json)
    (h : ∀ rest, equalsItems first rest = equalsItems second rest) :
    equalsItems (before ++ first) others = equalsItems (before ++ second) others := by
  induction before generalizing others with
  | nil => exact h others
  | cons item before ih =>
      cases others with
      | nil => rfl
      | cons other others => rw [List.cons_append, List.cons_append, equalsItems, equalsItems, ih]

theorem equalsItems_append_right (before first second : List Json) (others : List Json)
    (h : ∀ rest, equalsItems rest first = equalsItems rest second) :
    equalsItems others (before ++ first) = equalsItems others (before ++ second) := by
  induction before generalizing others with
  | nil => exact h others
  | cons item before ih =>
      cases others with
      | nil => rfl
      | cons other others => rw [List.cons_append, List.cons_append, equalsItems, equalsItems, ih]

theorem Reordered.equals_left {value other : Json} (h : Reordered value other) (third : Json) :
    equals value third = equals other third := by
  induction h generalizing third with
  | same value => rfl
  | trans _ _ ihfirst ihsecond => exact (ihfirst third).trans (ihsecond third)
  | swap before after hne =>
      cases third with
      | obj fields =>
          simp only [equals, equalsFields_eq_all, List.all_append, List.all_cons,
            List.length_append, List.length_cons]
          ac_rfl
      | _ => rfl
  | @item before after first second _ ih =>
      cases third with
      | arr items =>
          refine equalsItems_append before _ _ items fun rest => ?_
          cases rest with
          | nil => rfl
          | cons item rest => rw [equalsItems, equalsItems, ih]
      | _ => rfl
  | field before after name _ ih =>
      cases third with
      | obj fields =>
          simp only [equals, equalsFields_eq_all, List.all_append, List.all_cons,
            List.length_append, List.length_cons]
          cases findField fields name with
          | none => rfl
          | some found => simp only [ih]
      | _ => rfl

theorem Reordered.equals_right {value other : Json} (h : Reordered value other) (third : Json) :
    equals third value = equals third other := by
  induction h generalizing third with
  | same value => rfl
  | trans _ _ ihfirst ihsecond => exact (ihfirst third).trans (ihsecond third)
  | swap before after hne =>
      cases third with
      | obj fields =>
          simp only [equals, equalsFields_eq_all, List.length_append, List.length_cons,
            findField_swap hne]
      | _ => rfl
  | @item before after first second _ ih =>
      cases third with
      | arr items =>
          refine equalsItems_append_right before _ _ items fun rest => ?_
          cases rest with
          | nil => rfl
          | cons item rest => rw [equalsItems, equalsItems, ih]
      | _ => rfl
  | field before after name hvalue ih =>
      cases third with
      | obj fields =>
          simp only [equals, equalsFields_eq_all, List.length_append, List.length_cons]
          congr 2
          funext field
          rcases findField_field before after name field.1 _ _ with hequal | ⟨hfirst, hsecond⟩
          · rw [hequal]
          · rw [hfirst, hsecond]
            exact ih field.2
      | _ => rfl

theorem lessItems_append (before : List Json) {first second : List Json} (others : List Json)
    (h : ∀ rest, lessItems first rest = lessItems second rest) :
    lessItems (before ++ first) others = lessItems (before ++ second) others := by
  induction before generalizing others with
  | nil => exact h others
  | cons item before ih =>
      cases others with
      | nil => rfl
      | cons other others => rw [List.cons_append, List.cons_append, lessItems, lessItems, ih]

theorem lessItems_append_right (before : List Json) {first second : List Json} (others : List Json)
    (h : ∀ rest, lessItems rest first = lessItems rest second) :
    lessItems others (before ++ first) = lessItems others (before ++ second) := by
  induction before generalizing others with
  | nil => exact h others
  | cons item before ih =>
      cases others with
      | nil => rfl
      | cons other others => rw [List.cons_append, List.cons_append, lessItems, lessItems, ih]

theorem Reordered.less_left {value other : Json} (h : Reordered value other) (third : Json) :
    less value third = less other third := by
  induction h generalizing third with
  | same value => rfl
  | trans _ _ ihfirst ihsecond => exact (ihfirst third).trans (ihsecond third)
  | swap before after hne => cases third <;> rfl
  | item before after hvalue ih =>
      cases third with
      | arr items =>
          refine lessItems_append before items fun rest => ?_
          cases rest with
          | nil => rfl
          | cons item rest => rw [lessItems, lessItems, hvalue.equals_left, ih]
      | _ => rfl
  | field before after name _ ih => cases third <;> rfl

theorem Reordered.less_right {value other : Json} (h : Reordered value other) (third : Json) :
    less third value = less third other := by
  induction h generalizing third with
  | same value => rfl
  | trans _ _ ihfirst ihsecond => exact (ihfirst third).trans (ihsecond third)
  | swap before after hne => cases third <;> rfl
  | item before after hvalue ih =>
      cases third with
      | arr items =>
          refine lessItems_append_right before items fun rest => ?_
          cases rest with
          | nil => rfl
          | cons item rest => rw [lessItems, lessItems, hvalue.equals_right, ih]
      | _ => rfl
  | field before after name _ ih => cases third <;> rfl

-- The least of the one list is the least of the other.
theorem minimum_alike {items others : List Json} (h : List.Forall₂ Reordered items others) :
    Alike Reordered (minimum items) (minimum others) := by
  cases h with
  | nil => exact .error _
  | cons hfirst hrest =>
      refine Alike.foldlM (fun best best' item item' hbest hitem => ?_) hfirst hrest
      rw [hitem.less_left, hbest.less_right]
      cases less item' best' with
      | error exc => exact .error exc
      | ok smaller =>
          cases smaller with
          | true => exact .ok hitem
          | false => exact .ok hbest

end comparing

end QuantumPlatform.Python
