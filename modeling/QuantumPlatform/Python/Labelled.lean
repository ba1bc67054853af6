import Mathlib.Data.List.Basic
import Mathlib.Data.List.Infix
import Mathlib.Data.String.Basic

namespace QuantumPlatform.Python

-- Texts of one labelled value a line, and what of them can be read back.
section lists

variable {α : Type} {separator : α} {part xs ys : List α}

-- What is free of the separator does not reach over it.
theorem infix_separated (hne : part ≠ []) (hfree : separator ∉ part) :
    part <:+: xs ++ separator :: ys ↔ part <:+: xs ∨ part <:+: ys := by
  have hstart : ∀ last, last ≠ [] → last <+: separator :: ys → separator ∈ last := by
    intro last hlast hprefix
    obtain ⟨first, rest, rfl⟩ := List.exists_cons_of_ne_nil hlast
    obtain ⟨rfl, -⟩ := List.cons_prefix_cons.mp hprefix
    exact List.mem_cons_self
  constructor
  · intro h
    rcases List.infix_append_iff_ne_nil.mp h with hxs | hys | ⟨first, last, -, hlast, rfl, -, hys⟩
    · exact .inl hxs
    · rcases List.infix_cons_iff.mp hys with hprefix | hinfix
      · exact absurd (hstart part hne hprefix) hfree
      · exact .inr hinfix
    · exact absurd (List.mem_append_right first (hstart last hlast hys)) hfree
  · rintro (h | h)
    · exact List.infix_append_of_infix_left h
    · exact List.infix_append_of_infix_right (List.infix_cons h)

-- What begins with something that a label does not have stands after the label.
theorem infix_labelled {first : α} (hhead : part.head? = some first) (hfirst : first ∉ xs) :
    part <:+: xs ++ ys ↔ part <:+: ys := by
  have hmem : first ∈ part := List.mem_of_head? hhead
  constructor
  · intro h
    rcases List.infix_append_iff_ne_nil.mp h with hxs | hys | ⟨start, last, hstart, -, rfl, hxs, -⟩
    · exact absurd (hxs.subset hmem) hfirst
    · exact hys
    · obtain ⟨other, rest, rfl⟩ := List.exists_cons_of_ne_nil hstart
      obtain rfl : other = first := Option.some.inj hhead
      exact absurd (hxs.subset List.mem_cons_self) hfirst
  · exact List.infix_append_of_infix_right

end lists

section occurrence

-- `part in text`
def Occurs (part text : String) : Prop := part.toList <:+: text.toList

theorem occurs_iff (part text : String) :
    Occurs part text ↔ ∃ before after, text = before ++ part ++ after := by
  constructor
  · rintro ⟨before, after, h⟩
    refine ⟨String.ofList before, String.ofList after, String.toList_inj.mp ?_⟩
    simpa using h.symm
  · rintro ⟨before, after, rfl⟩
    exact ⟨before.toList, after.toList, by simp⟩

variable {part : String}

theorem occurs_intercalate (separator : Char) (hne : part.toList ≠ [])
    (hfree : separator ∉ part.toList) (lines : List String) :
    Occurs part ((String.singleton separator).intercalate lines) ↔
      ∃ line ∈ lines, Occurs part line := by
  induction lines with
  | nil => simp [Occurs, hne]
  | cons line rest ih =>
      cases rest with
      | nil => simp
      | cons next rest =>
          have hcut : ((String.singleton separator).intercalate (line :: next :: rest)).toList =
              line.toList ++ separator ::
                ((String.singleton separator).intercalate (next :: rest)).toList := by
            rw [String.intercalate_cons_cons]
            simp
          rw [Occurs, hcut, infix_separated hne hfree, List.exists_mem_cons_iff, ← ih]
          rfl

end occurrence

section sheets

def labelled (row : String × String) : String := row.1 ++ ": " ++ row.2

def sheet (rows : List (String × String)) : String := "\n".intercalate (rows.map labelled)

theorem occurs_labelled {part : String} {first : Char} (hhead : part.toList.head? = some first)
    {row : String × String} (hfirst : first ∉ (row.1 ++ ": ").toList) :
    Occurs part (labelled row) ↔ Occurs part row.2 := by
  rw [Occurs, labelled, String.toList_append]
  exact infix_labelled hhead hfirst

-- A part of one line stands in the sheet just when it stands in a value.
theorem occurs_sheet {part : String} {first : Char} (hhead : part.toList.head? = some first)
    (hline : '\n' ∉ part.toList) {rows : List (String × String)}
    (hfirst : ∀ row ∈ rows, first ∉ (row.1 ++ ": ").toList) :
    Occurs part (sheet rows) ↔ ∃ row ∈ rows, Occurs part row.2 := by
  have hne : part.toList ≠ [] := by
    intro hnil
    rw [hnil] at hhead
    cases hhead
  have hlines := occurs_intercalate '\n' hne hline (rows.map labelled)
  refine hlines.trans ?_
  simp only [List.mem_map, exists_exists_and_eq_and]
  exact exists_congr fun row => and_congr_right fun hmem => occurs_labelled hhead (hfirst row hmem)

-- Labels without a colon, and values of one line but for those of `last`, which ends the rows.
structure Ruled (last : String) (rows : List (String × String)) : Prop where
  labels : ∀ row ∈ rows, ':' ∉ row.1.toList
  values : ∀ row ∈ rows, row.1 ≠ last → '\n' ∉ row.2.toList
  ends : rows.Pairwise fun row _ => row.1 ≠ last

theorem Ruled.tail {last : String} {row : String × String} {rows : List (String × String)}
    (h : Ruled last (row :: rows)) : Ruled last rows :=
  ⟨fun other hmem => h.labels other (List.mem_cons_of_mem row hmem),
    fun other hmem => h.values other (List.mem_cons_of_mem row hmem), h.ends.of_cons⟩

theorem Ruled.eq_nil_of_last {last : String} {row : String × String} {rows : List (String × String)}
    (h : Ruled last (row :: rows)) (hlast : row.1 = last) : rows = [] := by
  cases rows with
  | nil => rfl
  | cons next rest => exact absurd hlast (List.rel_of_pairwise_cons h.ends List.mem_cons_self)

theorem toList_sheet_cons (row : String × String) (rows : List (String × String)) :
    (sheet (row :: rows)).toList = row.1.toList ++ ':' :: ' ' :: (row.2.toList ++
      if rows = [] then [] else '\n' :: (sheet rows).toList) := by
  cases rows with
  | nil => simp [sheet, labelled]
  | cons next rest =>
      unfold sheet
      rw [List.map_cons, List.map_cons, String.intercalate_cons_cons]
      simp [labelled]

-- Nothing, or the separator and what follows it.
def Resumes {α : Type} (separator : α) (xs : List α) : Prop := ∀ x ∈ xs.head?, x = separator

theorem resumes_cons {α : Type} (separator : α) (xs : List α) : Resumes separator (separator :: xs) :=
  fun _ hx => (Option.some.inj hx).symm

theorem append_separated_inj {α : Type} {separator : α} {xs xs' ys ys' : List α}
    (hfree : separator ∉ xs) (hfree' : separator ∉ xs') (hys : Resumes separator ys)
    (hys' : Resumes separator ys') (h : xs ++ ys = xs' ++ ys') : xs = xs' ∧ ys = ys' := by
  induction xs generalizing xs' with
  | nil =>
      cases xs' with
      | nil => exact ⟨rfl, h⟩
      | cons x' rest' =>
          obtain rfl : x' = separator := hys x' (by rw [List.nil_append] at h; rw [h]; rfl)
          exact absurd List.mem_cons_self hfree'
  | cons x rest ih =>
      cases xs' with
      | nil =>
          obtain rfl : x = separator := hys' x (by rw [List.nil_append] at h; rw [← h]; rfl)
          exact absurd List.mem_cons_self hfree
      | cons x' rest' =>
          obtain ⟨rfl, hrest⟩ := List.cons_eq_cons.mp h
          obtain ⟨rfl, hequal⟩ := ih (List.not_mem_of_not_mem_cons hfree)
            (List.not_mem_of_not_mem_cons hfree') hrest
          exact ⟨rfl, hequal⟩

theorem sheet_injective {last : String} {rows others : List (String × String)}
    (h : Ruled last rows) (h' : Ruled last others) (hsheet : sheet rows = sheet others) :
    rows = others := by
  induction rows generalizing others with
  | nil =>
      cases others with
      | nil => rfl
      | cons other others =>
          have hlist := congrArg String.toList hsheet
          rw [toList_sheet_cons] at hlist
          simp [sheet] at hlist
  | cons row rows ih =>
      cases others with
      | nil =>
          have hlist := congrArg String.toList hsheet
          rw [toList_sheet_cons] at hlist
          simp [sheet] at hlist
      | cons other others =>
          have hlist := congrArg String.toList hsheet
          rw [toList_sheet_cons, toList_sheet_cons] at hlist
          obtain ⟨hlabel, hrest⟩ := append_separated_inj (h.labels row List.mem_cons_self)
            (h'.labels other List.mem_cons_self) (resumes_cons _ _) (resumes_cons _ _) hlist
          have hcontent := List.cons_inj_right _ |>.mp (List.cons_inj_right _ |>.mp hrest)
          by_cases hlast : row.1 = last
          · -- the last value may go on over the lines, but nothing follows it
            obtain rfl := h.eq_nil_of_last hlast
            obtain rfl := h'.eq_nil_of_last ((String.toList_inj.mp hlabel).symm.trans hlast)
            simp only [if_true, List.append_nil] at hcontent
            rw [Prod.ext (String.toList_inj.mp hlabel) (String.toList_inj.mp hcontent)]
          · have hresumes : ∀ rows : List (String × String),
                Resumes '\n' (if rows = [] then [] else '\n' :: (sheet rows).toList) := by
              intro rows
              split_ifs
              · exact fun x hx => nomatch hx
              · exact resumes_cons _ _
            have hlast' : other.1 ≠ last := fun heq =>
              hlast ((String.toList_inj.mp hlabel).trans heq)
            obtain ⟨hvalue, hfollowing⟩ := append_separated_inj
              (h.values row List.mem_cons_self hlast) (h'.values other List.mem_cons_self hlast')
              (hresumes rows) (hresumes others) hcontent
            have hrow : row = other :=
              Prod.ext (String.toList_inj.mp hlabel) (String.toList_inj.mp hvalue)
            have hrows : rows = others := by
              split_ifs at hfollowing with hnil hnil' hnil'
              · rw [hnil, hnil']
              · exact ih h.tail h'.tail
                  (String.toList_inj.mp ((List.cons_inj_right _).mp hfollowing))
            rw [hrow, hrows]

-- The rows that have a value.
def visible (rows : List (String × Option String)) : List (String × String) :=
  rows.filterMap fun row => row.2.map fun text => (row.1, text)

theorem mem_visible {rows : List (String × Option String)} {row : String × String} :
    row ∈ visible rows ↔ (row.1, some row.2) ∈ rows := by
  obtain ⟨label, text⟩ := row
  simp only [visible, List.mem_filterMap, Option.map_eq_some_iff, Prod.mk.injEq]
  constructor
  · rintro ⟨⟨label', value⟩, hmem, text', hvalue, rfl, rfl⟩
    exact hvalue ▸ hmem
  · intro hmem
    exact ⟨_, hmem, text, rfl, rfl, rfl⟩

-- A label that does not come again has the value that is visible under it.
theorem value_of_visible {label : String} {value value' : Option String}
    {rows others : List (String × Option String)} (hnotMem : label ∉ others.map Prod.fst)
    (h : visible ((label, value) :: rows) = visible ((label, value') :: others)) (text : String)
    (hvalue : value = some text) : value' = some text := by
  have hmem : (label, text) ∈ visible ((label, value') :: others) :=
    h ▸ mem_visible.mpr (hvalue ▸ List.mem_cons_self)
  rcases List.mem_cons.mp (mem_visible.mp hmem) with heq | hothers
  · exact (Prod.ext_iff.mp heq).2.symm
  · exact absurd (List.mem_map_of_mem (f := Prod.fst) hothers) hnotMem

theorem visible_injective {rows others : List (String × Option String)}
    (hlabels : rows.map Prod.fst = others.map Prod.fst) (hnodup : (rows.map Prod.fst).Nodup)
    (h : visible rows = visible others) : rows = others := by
  induction rows generalizing others with
  | nil => exact (List.map_eq_nil_iff.mp hlabels.symm).symm
  | cons row rows ih =>
      obtain ⟨label, value⟩ := row
      cases others with
      | nil => cases hlabels
      | cons other others =>
          obtain ⟨label', value'⟩ := other
          obtain ⟨rfl, hrest⟩ : label = label' ∧ rows.map Prod.fst = others.map Prod.fst :=
            List.cons_eq_cons.mp hlabels
          obtain ⟨hnotMem, hnodup⟩ := List.nodup_cons.mp hnodup
          obtain rfl : value = value' := Option.ext fun text =>
            ⟨value_of_visible (hrest ▸ hnotMem) h text, value_of_visible hnotMem h.symm text⟩
          have hvisible : visible rows = visible others := by
            cases value with
            | none => exact h
            | some text => exact (List.cons_eq_cons.mp h).2
          rw [ih hrest hnodup hvisible]

theorem Ruled.of_rows {last : String} (rows : List (String × Option String)) {value : Option String}
    (hlabels : ∀ row ∈ rows, ':' ∉ row.1.toList ∧ row.1 ≠ last) (hlast : ':' ∉ last.toList)
    (hvalues : ∀ row ∈ rows, ∀ text, row.2 = some text → '\n' ∉ text.toList) :
    Ruled last (visible (rows ++ [(last, value)])) := by
  have hvisible : ∀ row ∈ visible (rows ++ [(last, value)]),
      (row.1, some row.2) ∈ rows ∨ row.1 = last := by
    intro row hmem
    rcases List.mem_append.mp (mem_visible.mp hmem) with hrows | hend
    · exact .inl hrows
    · exact .inr (Prod.ext_iff.mp (List.mem_singleton.mp hend)).1
  refine ⟨fun row hmem => ?_, fun row hmem hne => ?_, ?_⟩
  · rcases hvisible row hmem with hrows | hend
    · exact (hlabels _ hrows).1
    · exact hend ▸ hlast
  · exact hvalues _ ((hvisible row hmem).resolve_right hne) _ rfl
  · have hsplit : visible (rows ++ [(last, value)]) = visible rows ++ visible [(last, value)] :=
      List.filterMap_append
    have hne : ∀ row ∈ visible rows, row.1 ≠ last :=
      fun row hmem => (hlabels _ (mem_visible.mp hmem)).2
    rw [hsplit]
    refine List.pairwise_append.mpr ⟨?_, ?_, fun row hmem _ _ => hne row hmem⟩
    · exact List.Pairwise.imp_of_mem (fun hmem _ _ => hne _ hmem) (List.pairwise_of_forall fun _ _ => trivial)
    · cases value with
      | none => exact List.Pairwise.nil
      | some text => exact List.pairwise_singleton _ _

-- Two texts of such rows are the same just when every value is.
theorem sheet_visible_inj {last : String} {rows others : List (String × Option String)}
    (h : Ruled last (visible rows)) (h' : Ruled last (visible others))
    (hlabels : rows.map Prod.fst = others.map Prod.fst) (hnodup : (rows.map Prod.fst).Nodup) :
    sheet (visible rows) = sheet (visible others) ↔ rows = others :=
  ⟨fun heq => visible_injective hlabels hnodup (sheet_injective h h' heq), fun heq => heq ▸ rfl⟩

end sheets

end QuantumPlatform.Python
