import QuantumPlatform.Process.Fallible
import QuantumPlatform.Sql.Select

namespace QuantumPlatform.Sql

open Process

variable {κ α β γ ε : Type}

-- A keyed collection read as a list: each value that is asked for, once, in order.
structure Listing (current : κ → Option α) (key : α → κ) (p : α → Prop) (le : α → α → Prop)
    (listed : List α) : Prop where
  once : (listed.map key).Nodup
  mem_iff : ∀ value, value ∈ listed ↔ current (key value) = some value ∧ p value
  sorted : listed.Pairwise le

-- All of its rows, in whatever order they are kept.
abbrev Rows (current : κ → Option α) (key : α → κ) : List α → Prop :=
  Listing current key (fun _ => True) fun _ _ => True

section listing

variable {current : κ → Option α} {key : α → κ} {p : α → Prop} {le : α → α → Prop}
  {rows listed : List α}

-- SELECT ... WHERE ... ORDER BY
theorem Listing.of_ordered [DecidablePred p] (hrows : Rows current key rows)
    (h : Ordered le (rows.filter fun row => decide (p row)) listed) :
    Listing current key p le listed := by
  refine ⟨?_, fun value => ?_, h.sorted⟩
  · have hkept : (rows.filter fun row => decide (p row)).Sublist rows := List.filter_sublist
    exact (h.perm.map key).nodup_iff.mpr (hrows.once.sublist (hkept.map key))
  · rw [h.mem_iff, List.mem_filter, hrows.mem_iff, decide_eq_true_iff, and_true]

-- Two listings differ at most in their order.
theorem Listing.perm {other : α → α → Prop} {second : List α}
    (h : Listing current key p le listed) (hsecond : Listing current key p other second) :
    listed.Perm second := by
  refine (List.perm_ext_iff_of_nodup h.once.of_map hsecond.once.of_map).mpr fun value => ?_
  rw [h.mem_iff, hsecond.mem_iff]

-- And not in the order of what they are ordered by.
theorem Listing.map_eq {r : β → β → Prop} [Std.Antisymm r] {sortKey : α → β} {second : List α}
    (h : Listing current key p (fun a b => r (sortKey a) (sortKey b)) listed)
    (hsecond : Listing current key p (fun a b => r (sortKey a) (sortKey b)) second) :
    listed.map sortKey = second.map sortKey :=
  Ordered.map_eq ⟨.refl listed, h.sorted⟩ ⟨.refl second, hsecond.sorted⟩ (h.perm hsecond)

-- A listing of rows, each decoded to the value it stands for.
theorem Listing.decoded {decode : α → Except ε β} {values : List β} {held : κ → Option β}
    {name : β → κ} {q : β → Prop} {r : γ → γ → Prop} {sortKey : α → γ} {sortName : β → γ}
    (h : Listing current key p (fun a b => r (sortKey a) (sortKey b)) listed)
    (hvalues : listed.mapM decode = .ok values)
    (hname : ∀ row value, decode row = .ok value → name value = key row)
    (hq : ∀ row value, decode row = .ok value → (q value ↔ p row))
    (hsort : ∀ row value, decode row = .ok value → sortName value = sortKey row)
    (hheld : ∀ value, held (name value) = some value ↔
      ∃ row, current (key row) = some row ∧ decode row = .ok value) :
    Listing held name q (fun a b => r (sortName a) (sortName b)) values := by
  refine ⟨?_, fun value => ?_, ?_⟩
  · rw [map_eq_of_mapM (fun row _ => hname row) hvalues]
    exact h.once
  · rw [mem_of_mapM hvalues, hheld]
    constructor
    · rintro ⟨row, hrow, hvalue⟩
      obtain ⟨hcurrent, hp⟩ := (h.mem_iff row).mp hrow
      exact ⟨⟨row, hcurrent, hvalue⟩, (hq row value hvalue).mpr hp⟩
    · rintro ⟨⟨row, hcurrent, hvalue⟩, hvalid⟩
      exact ⟨row, (h.mem_iff row).mpr ⟨hcurrent, (hq row value hvalue).mp hvalid⟩, hvalue⟩
  · have hkeys := List.pairwise_map.mpr h.sorted
    rw [← map_eq_of_mapM (fun row _ => hsort row) hvalues] at hkeys
    exact List.pairwise_map.mp hkeys

-- All the rows of a table, each decoded.
theorem Listing.read {decode : α → Except ε β} {values : List β} {held : κ → Option β}
    {name : β → κ} (h : Rows current key rows) (hvalues : rows.mapM decode = .ok values)
    (hname : ∀ row value, decode row = .ok value → name value = key row)
    (hheld : ∀ value, held (name value) = some value ↔
      ∃ row, current (key row) = some row ∧ decode row = .ok value) : Rows held name values :=
  @Listing.decoded _ _ _ Unit _ _ _ _ _ decode values held name (fun _ => True)
    (fun _ _ => True) (fun _ => ()) (fun _ => ()) h hvalues hname (fun _ _ _ => Iff.rfl)
    (fun _ _ _ => rfl) hheld

end listing

section tally

variable [LinearOrder γ] {current : κ → Option α} {key : α → κ} {group : α → γ}

-- The values of a collection counted by group: an entry for each group that has any.
structure Tally (current : κ → Option α) (key : α → κ) (group : α → γ)
    (entries : List (γ × ℕ)) : Prop where
  sorted : entries.Pairwise fun a b => a.1 < b.1
  mem_iff : ∀ found, (∃ count, (found, count) ∈ entries) ↔
    ∃ value, current (key value) = some value ∧ group value = found
  count : ∀ found count, (found, count) ∈ entries → ∀ p le listed,
    (∀ value, p value ↔ group value = found) → Listing current key p le listed →
      count = listed.length

-- SELECT ..., count(*) ... GROUP BY ... ORDER BY
theorem Tally.of_grouped {rows : List α} {groups entries : List (γ × ℕ)}
    (hrows : Rows current key rows) (hgroups : Grouped (rows.map group) groups)
    (h : Ordered (fun a b => a.1 ≤ b.1) groups entries) : Tally current key group entries := by
  refine ⟨?_, fun found => ?_, fun found count hmem p le listed hp hlisted => ?_⟩
  · have honce : (entries.map Prod.fst).Nodup := (h.perm.map Prod.fst).nodup_iff.mpr hgroups.once
    exact (h.sorted.and (List.pairwise_map.mp honce)).imp fun hab => lt_of_le_of_ne hab.1 hab.2
  · calc (∃ count, (found, count) ∈ entries)
        ↔ ∃ count, 0 < count ∧ count = (rows.map group).count found :=
          exists_congr fun count => h.mem_iff.trans (hgroups.mem_iff found count)
      _ ↔ found ∈ rows.map group := by
          rw [← List.count_pos_iff]
          exact ⟨fun ⟨_, hpos, heq⟩ => heq ▸ hpos, fun hpos => ⟨_, hpos, rfl⟩⟩
      _ ↔ ∃ value, current (key value) = some value ∧ group value = found := by
          rw [List.mem_map]
          exact exists_congr fun value => and_congr_left fun _ => by
            rw [hrows.mem_iff, and_true]
  · have hfiltered : Listing current key (fun value => group value = found) (fun _ _ => True)
        (rows.filter fun value => decide (group value = found)) :=
      .of_ordered hrows ⟨.refl _, List.pairwise_of_forall fun _ _ => trivial⟩
    have hsame : Listing current key p le listed ↔
        Listing current key (fun value => group value = found) le listed := by
      rw [show p = fun value => group value = found from funext fun value => propext (hp value)]
    calc count = (rows.map group).count found := ((hgroups.mem_iff found count).mp
          (h.mem_iff.mp hmem)).2
      _ = (rows.filter fun value => decide (group value = found)).length := by
          rw [List.count, List.countP_map, List.countP_eq_length_filter]
          rfl
      _ = listed.length := (hfiltered.perm (hsame.mp hlisted)).length_eq

end tally

end QuantumPlatform.Sql
