import Mathlib.Data.List.Count
import Mathlib.Data.List.Dedup
import Mathlib.Data.List.Sort
import Mathlib.Order.Defs.LinearOrder

namespace QuantumPlatform.Sql

variable {α β : Type}

-- ORDER BY: all the rows, none before one that the order puts first. Rows that the order
-- does not tell apart may come either way round.
structure Ordered (le : α → α → Prop) (rows result : List α) : Prop where
  perm : result.Perm rows
  sorted : result.Pairwise le

section order

variable {le : α → α → Prop} {rows result : List α}

theorem ordered_mergeSort [DecidableRel le] (trans : ∀ a b c, le a b → le b c → le a c)
    (total : ∀ a b, le a b ∨ le b a) (rows : List α) :
    Ordered le rows (rows.mergeSort fun a b => decide (le a b)) := by
  refine ⟨List.mergeSort_perm _ _, ?_⟩
  have hsorted := @List.pairwise_mergeSort _ (fun a b => decide (le a b))
    (by simpa using trans) (by simpa using total) rows
  simpa using hsorted

theorem Ordered.mem_iff (h : Ordered le rows result) {row : α} : row ∈ result ↔ row ∈ rows :=
  h.perm.mem_iff

theorem Ordered.map (h : Ordered le rows result) {f : α → β} {other : β → β → Prop}
    (hle : ∀ a b, le a b → other (f a) (f b)) : Ordered other (rows.map f) (result.map f) :=
  ⟨h.perm.map f, h.sorted.map f hle⟩

-- The keys of a result do not depend on how its ties fall.
theorem Ordered.map_eq {r : β → β → Prop} [Std.Antisymm r] {key : α → β} {more second : List α}
    (h : Ordered (fun a b => r (key a) (key b)) rows result)
    (hother : Ordered (fun a b => r (key a) (key b)) more second) (hperm : rows.Perm more) :
    result.map key = second.map key := by
  have hkeys : (result.map key).Perm (second.map key) :=
    (h.perm.trans (hperm.trans hother.perm.symm)).map key
  exact hkeys.eq_of_pairwise (fun a b _ _ hab hba => Std.Antisymm.antisymm a b hab hba)
    (List.pairwise_map.mpr h.sorted) (List.pairwise_map.mpr hother.sorted)

end order

section groups

variable [DecidableEq α]

-- GROUP BY with count(*): a group for each key that occurs.
structure Grouped (keys : List α) (groups : List (α × ℕ)) : Prop where
  once : (groups.map Prod.fst).Nodup
  mem_iff : ∀ group count, (group, count) ∈ groups ↔ 0 < count ∧ count = keys.count group

theorem exists_grouped (keys : List α) : ∃ groups, Grouped keys groups := by
  refine ⟨keys.dedup.map fun key => (key, keys.count key), ?_, fun group count => ?_⟩
  · rw [List.map_map]
    exact (List.map_id _).symm ▸ List.nodup_dedup keys
  · constructor
    · intro hmem
      obtain ⟨key, hkey, heq⟩ := List.mem_map.mp hmem
      obtain ⟨rfl, rfl⟩ := Prod.mk.inj heq
      exact ⟨List.count_pos_iff.mpr (List.mem_dedup.mp hkey), rfl⟩
    · rintro ⟨hpos, rfl⟩
      exact List.mem_map.mpr ⟨group, List.mem_dedup.mpr (List.count_pos_iff.mp hpos), rfl⟩

theorem Grouped.map [DecidableEq β] {keys : List α} {groups : List (α × ℕ)} {f : α → β}
    (h : Grouped keys groups) (hf : Function.Injective f) :
    Grouped (keys.map f) (groups.map fun group => (f group.1, group.2)) := by
  refine ⟨?_, fun group count => ?_⟩
  · have hkeys := h.once.map hf
    rwa [List.map_map] at hkeys ⊢
  · constructor
    · intro hmem
      obtain ⟨⟨key, found⟩, hfound, heq⟩ := List.mem_map.mp hmem
      obtain ⟨rfl, rfl⟩ := Prod.mk.inj heq
      rw [List.count_map_of_injective keys f hf]
      exact (h.mem_iff key found).mp hfound
    · rintro ⟨hpos, rfl⟩
      obtain ⟨key, hkey, rfl⟩ := List.mem_map.mp (List.count_pos_iff.mp hpos)
      rw [List.count_map_of_injective keys f hf] at hpos ⊢
      exact List.mem_map.mpr ⟨(key, keys.count key), (h.mem_iff key _).mpr ⟨hpos, rfl⟩, rfl⟩

end groups

section limit

variable [LinearOrder β] {key : α → β} {p : α → Prop} [DecidablePred p] {rows result : List α}
  {n : ℕ}

-- A row beyond the limit comes after a full list of others.
theorem Ordered.mem_take_or {le : α → α → Prop} (h : Ordered le rows result) {row : α}
    (hrow : row ∈ rows) : row ∈ result.take n ∨
      (result.take n).length = n ∧ ∀ other ∈ result.take n, le other row := by
  have hsplit := List.take_append_drop n result
  have hmem : row ∈ result.take n ++ result.drop n := hsplit.symm ▸ h.mem_iff.mpr hrow
  have hsorted : (result.take n ++ result.drop n).Pairwise le := hsplit.symm ▸ h.sorted
  rcases List.mem_append.mp hmem with hwithin | hbeyond
  · exact .inl hwithin
  · refine .inr ⟨List.length_take_of_le ?_, fun other hother =>
      (List.pairwise_append.mp hsorted).2.2 other hother row hbeyond⟩
    by_contra hshort
    rw [List.drop_eq_nil_of_le (le_of_not_ge hshort)] at hbeyond
    cases hbeyond

-- A row that comes within the limit has fewer rows than that strictly before it.
theorem Ordered.lt_countP (h : Ordered (fun a b => key a ≤ key b) rows result) {row : α}
    (hrow : row ∈ result.take n) :
    rows.countP (fun other => decide (key other < key row)) < n := by
  obtain ⟨i, hi, rfl⟩ := List.mem_iff_getElem.mp hrow
  rw [List.length_take, Nat.lt_min] at hi
  rw [List.getElem_take]
  set near := fun other : α => decide (key other < key result[i])
  have hlater : ∀ other ∈ result.drop i, ¬near other = true := by
    intro other hother hnear
    have hlt : key other < key result[i] := of_decide_eq_true hnear
    rw [List.drop_eq_getElem_cons hi.2] at hother
    rcases List.mem_cons.mp hother with rfl | hafter
    · exact lt_irrefl _ hlt
    · have hsorted := h.sorted.drop (i := i)
      rw [List.drop_eq_getElem_cons hi.2] at hsorted
      exact not_lt_of_ge (List.rel_of_pairwise_cons hsorted hafter) hlt
  calc rows.countP near
      = result.countP near := (h.perm.countP_eq near).symm
    _ = (result.take i ++ result.drop i).countP near := by rw [List.take_append_drop]
    _ = (result.take i).countP near := by
        rw [List.countP_append, List.countP_eq_zero.mpr hlater, Nat.add_zero]
    _ ≤ (result.take i).length := List.countP_le_length
    _ ≤ i := List.length_take_le _ _
    _ < n := hi.1

-- The order in which rows without the property win every tie.
def Contrary (key : α → β) (p : α → Prop) (a b : α) : Prop :=
  key a < key b ∨ key a = key b ∧ (p a → p b)

theorem exists_contrary (key : α → β) (p : α → Prop) [DecidablePred p] (rows : List α) :
    ∃ result, Ordered (Contrary key p) rows result := by
  have hdecidable : DecidableRel (Contrary key p) := fun a b =>
    inferInstanceAs (Decidable (key a < key b ∨ key a = key b ∧ (p a → p b)))
  refine ⟨_, ordered_mergeSort (fun a b c hab hbc => ?_) (fun a b => ?_) rows⟩
  · rcases hab with hab | ⟨hab, himp⟩
    · rcases hbc with hbc | ⟨hbc, -⟩
      · exact .inl (hab.trans hbc)
      · exact .inl (hbc ▸ hab)
    · rcases hbc with hbc | ⟨hbc, hnext⟩
      · exact .inl (hab ▸ hbc)
      · exact .inr ⟨hab.trans hbc, hnext ∘ himp⟩
  · rcases lt_trichotomy (key a) (key b) with hlt | heq | hgt
    · exact .inl (.inl hlt)
    · by_cases hb : p b
      · exact .inl (.inr ⟨heq, fun _ => hb⟩)
      · exact .inr (.inr ⟨heq.symm, fun h => absurd h hb⟩)
    · exact .inr (.inl hgt)

-- Every way the ties may fall leaves only rows with the property within the limit, exactly
-- when each row without it has that many with it strictly before.
theorem take_forall_iff :
    (∀ result, Ordered (fun a b => key a ≤ key b) rows result → ∀ row ∈ result.take n, p row) ↔
      ∀ row ∈ rows, ¬p row →
        n ≤ rows.countP fun other => decide (p other ∧ key other < key row) := by
  constructor
  · intro h row hrow hnot
    obtain ⟨result, hcontrary⟩ := exists_contrary key p rows
    have hordered : Ordered (fun a b => key a ≤ key b) rows result :=
      ⟨hcontrary.perm, hcontrary.sorted.imp fun hab => hab.elim le_of_lt fun heq => le_of_eq heq.1⟩
    have hwithin := h result hordered
    obtain ⟨hlength, hbefore⟩ := (hcontrary.mem_take_or hrow).resolve_left fun hin =>
      hnot (hwithin row hin)
    -- no tie is left between the rows within the limit and this one
    have hnearer : ∀ other ∈ result.take n, decide (p other ∧ key other < key row) = true := by
      intro other hother
      have hp := hwithin other hother
      rcases hbefore other hother with hlt | ⟨-, himp⟩
      · exact decide_eq_true ⟨hp, hlt⟩
      · exact absurd (himp hp) hnot
    calc n = (result.take n).length := hlength.symm
      _ = (result.take n).countP fun other => decide (p other ∧ key other < key row) :=
          (List.countP_eq_length.mpr hnearer).symm
      _ ≤ result.countP fun other => decide (p other ∧ key other < key row) :=
          (List.take_sublist n result).countP_le
      _ = rows.countP fun other => decide (p other ∧ key other < key row) :=
          hcontrary.perm.countP_eq _
  · intro h result hordered row hrow
    by_contra hnot
    have hcount := h row (hordered.mem_iff.mp (List.mem_of_mem_take hrow)) hnot
    have hmono : rows.countP (fun other => decide (p other ∧ key other < key row)) ≤
        rows.countP fun other => decide (key other < key row) :=
      List.countP_mono_left fun other _ hother => decide_eq_true (of_decide_eq_true hother).2
    exact absurd (hordered.lt_countP hrow) (not_lt_of_ge (hcount.trans hmono))

-- Counting rows is finding that many of them.
theorem le_countP_iff {γ : Type} {name : α → γ} (hrows : (rows.map name).Nodup) :
    n ≤ rows.countP (fun row => decide (p row)) ↔
      ∃ found : List α, (found.map name).Nodup ∧ found.length = n ∧
        ∀ row ∈ found, row ∈ rows ∧ p row := by
  rw [List.countP_eq_length_filter]
  constructor
  · intro hcount
    have hsub : ((rows.filter fun row => decide (p row)).take n).Sublist rows :=
      (List.take_sublist _ _).trans List.filter_sublist
    refine ⟨_, hrows.sublist (hsub.map name), List.length_take_of_le hcount, fun row hrow => ?_⟩
    obtain ⟨hmem, hp⟩ := List.mem_filter.mp (List.mem_of_mem_take hrow)
    exact ⟨hmem, of_decide_eq_true hp⟩
  · rintro ⟨found, honce, rfl, hfound⟩
    have hsubset : found ⊆ rows.filter fun row => decide (p row) := fun row hrow =>
      List.mem_filter.mpr ⟨(hfound row hrow).1, decide_eq_true (hfound row hrow).2⟩
    exact (List.subperm_of_subset honce.of_map hsubset).length_le

end limit

end QuantumPlatform.Sql
