import Mathlib.Algebra.BigOperators.Group.List.Basic
import Mathlib.Algebra.Ring.Int.Defs
import Mathlib.Data.List.Induction
import Mathlib.Data.List.Nodup

namespace QuantumPlatform.Python

variable {κ α : Type} [DecidableEq κ]

private def place (key : κ) (value : α) : List (κ × α) → List (κ × α)
  | [] => [(key, value)]
  | (first, old) :: rest =>
      if first = key then (key, value) :: rest else (first, old) :: place key value rest

private theorem place_keys_of_mem (key : κ) (value : α) (items : List (κ × α))
    (hm : key ∈ items.map Prod.fst) : (place key value items).map Prod.fst = items.map Prod.fst := by
  induction items with
  | nil => simp at hm
  | cons item rest ih =>
      by_cases h : item.1 = key
      · simp [place, h]
      · have hr : key ∈ rest.map Prod.fst := by
          rcases List.mem_cons.mp hm with he | hr
          · exact absurd he.symm h
          · exact hr
        simp only [place, h, if_false, List.map_cons, ih hr]

private theorem place_of_notMem (key : κ) (value : α) (items : List (κ × α))
    (hn : key ∉ items.map Prod.fst) : place key value items = items ++ [(key, value)] := by
  induction items with
  | nil => rfl
  | cons item rest ih =>
      have h : item.1 ≠ key := fun he => hn (by simp [he])
      simp only [place, h, if_false, List.cons_append]
      rw [ih fun hm => hn (by simp only [List.map_cons, List.mem_cons, hm, or_true])]

private theorem place_nodup (key : κ) (value : α) (items : List (κ × α))
    (hn : (items.map Prod.fst).Nodup) : ((place key value items).map Prod.fst).Nodup := by
  by_cases hm : key ∈ items.map Prod.fst
  · rw [place_keys_of_mem key value items hm]
    exact hn
  · rw [place_of_notMem key value items hm, List.map_append]
    exact List.nodup_append.mpr ⟨hn, List.nodup_singleton _, by
      intro a ha b hb he
      obtain rfl : b = key := by simpa using hb
      exact hm (he ▸ ha)⟩

-- A dict: the pairs in insertion order, no key twice.
structure Dict (κ α : Type) where
  items : List (κ × α)
  nodup : (items.map Prod.fst).Nodup

namespace Dict

omit [DecidableEq κ] in
@[ext] theorem ext {first second : Dict κ α} (h : first.items = second.items) :
    first = second := by
  cases first
  cases second
  simp_all

def empty : Dict κ α := ⟨[], by simp⟩

instance : EmptyCollection (Dict κ α) := ⟨empty⟩

def get? (dict : Dict κ α) (key : κ) : Option α :=
  (dict.items.find? fun item => decide (item.1 = key)).map Prod.snd

def get (dict : Dict κ α) (key : κ) (fallback : α) : α :=
  (dict.get? key).getD fallback

-- Assignment to a key that is present keeps its place in the order.
def set (dict : Dict κ α) (key : κ) (value : α) : Dict κ α :=
  ⟨place key value dict.items, place_nodup key value dict.items dict.nodup⟩

def ofList (items : List (κ × α)) : Dict κ α :=
  items.foldl (fun dict item => dict.set item.1 item.2) empty

def keys (dict : Dict κ α) : List κ := dict.items.map Prod.fst

def values (dict : Dict κ α) : List α := dict.items.map Prod.snd

theorem keys_set (dict : Dict κ α) (key : κ) (value : α) :
    (dict.set key value).keys = if key ∈ dict.keys then dict.keys else dict.keys ++ [key] := by
  unfold keys set
  by_cases h : key ∈ dict.items.map Prod.fst
  · rw [if_pos h]
    exact place_keys_of_mem key value dict.items h
  · rw [if_neg h]
    simp only
    rw [place_of_notMem key value dict.items h, List.map_append, List.map_singleton]

@[simp] theorem get?_empty (key : κ) : (∅ : Dict κ α).get? key = none := rfl

private theorem find_place_self (key : κ) (value : α) (items : List (κ × α)) :
    (place key value items).find? (fun item => decide (item.1 = key)) = some (key, value) := by
  induction items with
  | nil => simp [place]
  | cons item rest ih =>
      by_cases h : item.1 = key
      · simp [place, h]
      · simp [place, h, ih]

private theorem find_place_other (key other : κ) (value : α) (items : List (κ × α))
    (hne : other ≠ key) :
    (place key value items).find? (fun item => decide (item.1 = other)) =
      items.find? fun item => decide (item.1 = other) := by
  induction items with
  | nil => simp [place, Ne.symm hne]
  | cons item rest ih =>
      by_cases h : item.1 = key
      · have ho : item.1 ≠ other := fun he => hne (he.symm.trans h)
        simp [place, h, Ne.symm hne]
      · simp only [place, h, if_false, List.find?_cons, ih]

@[simp] theorem get?_set_self (dict : Dict κ α) (key : κ) (value : α) :
    (dict.set key value).get? key = some value := by
  simp only [get?, set, find_place_self, Option.map_some]

theorem get?_set_of_ne (dict : Dict κ α) (key other : κ) (value : α) (hne : other ≠ key) :
    (dict.set key value).get? other = dict.get? other := by
  simp only [get?, set, find_place_other key other value dict.items hne]

theorem get?_set (dict : Dict κ α) (key other : κ) (value : α) :
    (dict.set key value).get? other = if other = key then some value else dict.get? other := by
  split_ifs with h
  · rw [h, get?_set_self]
  · exact get?_set_of_ne dict key other value h

theorem mem_items_iff (dict : Dict κ α) {key : κ} {value : α} :
    (key, value) ∈ dict.items ↔ dict.get? key = some value := by
  constructor
  · intro hmem
    cases hfind : dict.items.find? fun item => decide (item.1 = key) with
    | none =>
        have hnot := List.find?_eq_none.mp hfind (key, value) hmem
        simp at hnot
    | some item =>
        have hkey : item.1 = key := by simpa using List.find?_some hfind
        have hitem : item = (key, value) :=
          List.inj_on_of_nodup_map dict.nodup (List.mem_of_find?_eq_some hfind) hmem hkey
        rw [get?, hfind, hitem]
        rfl
  · intro hget
    obtain ⟨item, hfind, hvalue⟩ := Option.map_eq_some_iff.mp hget
    have hkey : item.1 = key := by simpa using List.find?_some hfind
    rw [← hkey, ← hvalue]
    exact List.mem_of_find?_eq_some hfind

-- A key occurs at most once.
theorem filter_key (dict : Dict κ α) (key : κ) :
    dict.items.filter (fun item => decide (item.1 = key)) =
      (dict.get? key).toList.map fun value => (key, value) := by
  cases hget : dict.get? key with
  | none =>
      refine List.filter_eq_nil_iff.mpr fun item hitem hkey => ?_
      obtain rfl := of_decide_eq_true hkey
      rw [dict.mem_items_iff.mp hitem] at hget
      cases hget
  | some value =>
      have hnodup : dict.items.Nodup := dict.nodup.of_map
      refine List.perm_singleton.mp ((List.perm_ext_iff_of_nodup (hnodup.filter _)
        (List.nodup_singleton _)).mpr fun item => ?_)
      rw [List.mem_filter, decide_eq_true_iff, List.mem_singleton]
      constructor
      · rintro ⟨hitem, rfl⟩
        rw [dict.mem_items_iff.mp hitem, Option.some_inj] at hget
        rw [← hget]
      · rintro rfl
        exact ⟨dict.mem_items_iff.mpr hget, rfl⟩

section identified

variable {dict : Dict κ α} {id : α → κ}

-- Values that know the key they are stored under.
theorem map_values_eq (h : ∀ key value, dict.get? key = some value → id value = key) :
    dict.values.map id = dict.keys := by
  unfold values keys
  rw [List.map_map]
  exact List.map_congr_left fun item hitem => h item.1 item.2 (dict.mem_items_iff.mp hitem)

theorem mem_values_iff (h : ∀ key value, dict.get? key = some value → id value = key)
    {value : α} : value ∈ dict.values ↔ dict.get? (id value) = some value := by
  constructor
  · intro hmem
    obtain ⟨⟨key, found⟩, hitem, rfl⟩ := List.mem_map.mp hmem
    have hget := dict.mem_items_iff.mp hitem
    rw [h key found hget]
    exact hget
  · intro hget
    exact List.mem_map.mpr ⟨(id value, value), dict.mem_items_iff.mpr hget, rfl⟩

end identified

@[simp] theorem get_set_self (dict : Dict κ α) (key : κ) (value fallback : α) :
    (dict.set key value).get key fallback = value := by
  simp [get]

theorem get_set_of_ne (dict : Dict κ α) (key other : κ) (value fallback : α)
    (hne : other ≠ key) : (dict.set key value).get other fallback = dict.get other fallback := by
  simp [get, get?_set_of_ne dict key other value hne]

@[simp] theorem get_empty (key : κ) (fallback : α) : (∅ : Dict κ α).get key fallback = fallback :=
  rfl

-- Pairs with different keys are kept as they are.
theorem items_ofList {items : List (κ × α)} (h : (items.map Prod.fst).Nodup) :
    (ofList items).items = items := by
  have hfold : ∀ dict : Dict κ α, ((dict.items ++ items).map Prod.fst).Nodup →
      (items.foldl (fun dict item => dict.set item.1 item.2) dict).items = dict.items ++ items := by
    clear h
    induction items with
    | nil => simp
    | cons item rest ih =>
        intro dict hnodup
        have hnew : item.1 ∉ dict.items.map Prod.fst := by
          rw [List.map_append, List.nodup_append] at hnodup
          exact fun hmem => hnodup.2.2 _ hmem _ (by simp) rfl
        have hset : (dict.set item.1 item.2).items = dict.items ++ [item] :=
          place_of_notMem item.1 item.2 dict.items hnew
        rw [List.foldl_cons, ih (dict.set item.1 item.2), hset, List.append_assoc,
          List.singleton_append]
        rw [hset, List.append_assoc, List.singleton_append]
        exact hnodup
  exact (hfold empty (by simpa [empty] using h)).trans (List.nil_append items)

-- What is in a dict of counts once every row has been counted under its key.
theorem get?_count {ρ : Type} (key : ρ → κ) (rows : List ρ) (counted : κ) :
    (rows.foldl (fun counts row => counts.set (key row) (counts.get (key row) 0 + 1))
      (∅ : Dict κ ℕ)).get? counted =
        if 0 < (rows.map key).count counted then some ((rows.map key).count counted)
        else none := by
  induction rows using List.reverseRecOn with
  | nil => rfl
  | append_singleton rows row ih =>
      rw [List.foldl_append, List.foldl_cons, List.foldl_nil, get?_set, List.map_append,
        List.map_singleton, List.count_append, List.count_singleton]
      by_cases hsame : counted = key row
      · subst hsame
        rw [if_pos rfl, get, ih]
        by_cases hpos : 0 < (rows.map key).count (key row)
        · simp [hpos]
        · simp [Nat.eq_zero_of_not_pos hpos]
      · rw [if_neg hsame, ih]
        simp [Ne.symm hsame]

private theorem sum_place (key : κ) (value : Int) (items : List (κ × Int)) :
    ((place key value items).map Prod.snd).sum = (items.map Prod.snd).sum -
      ((items.find? fun item => decide (item.1 = key)).map Prod.snd).getD 0 + value := by
  induction items with
  | nil => simp [place]
  | cons item rest ih =>
      by_cases h : item.1 = key
      · simp only [place, h, if_true, List.map_cons, List.sum_cons, List.find?_cons, decide_true,
          Option.map_some, Option.getD_some]
        omega
      · simp only [place, h, if_false, List.map_cons, List.sum_cons, ih, List.find?_cons,
          decide_false]
        omega

-- What an assignment does to the total of a histogram.
theorem sum_set (dict : Dict κ Int) (key : κ) (value : Int) :
    (dict.set key value).values.sum = dict.values.sum - dict.get key 0 + value :=
  sum_place key value dict.items

-- A total is the sum over any keys among which are those of the dict.
theorem sum_eq_of_keys (dict : Dict κ Int) {keys : List κ} (hkeys : keys.Nodup)
    (h : ∀ key ∈ dict.keys, key ∈ keys) :
    dict.values.sum = (keys.map fun key => dict.get key 0).sum := by
  obtain ⟨items, hnodup⟩ := dict
  simp only [values, get, get?, Dict.keys] at h ⊢
  induction items with
  | nil => simp
  | cons item rest ih =>
      rw [List.map_cons, List.nodup_cons] at hnodup
      have hrest := ih hnodup.2 fun key hmem => h key (List.mem_cons_of_mem _ hmem)
      let other := fun key =>
        ((rest.find? fun item => decide (item.1 = key)).map Prod.snd).getD (0 : Int)
      have hmissing : other item.1 = 0 := by
        have hnone : rest.find? (fun found => decide (found.1 = item.1)) = none := by
          refine List.find?_eq_none.mpr fun found hfound hsame => hnodup.1 ?_
          exact List.mem_map.mpr ⟨found, hfound, of_decide_eq_true hsame⟩
        simp only [other, hnone]
        rfl
      have hsplit : ∀ key, (((item :: rest).find? fun found => decide (found.1 = key)).map
          Prod.snd).getD 0 = (if key = item.1 then item.2 else 0) + other key := by
        intro key
        by_cases hsame : key = item.1
        · subst hsame
          simp [hmissing]
        · rw [List.find?_cons_of_neg (by simpa using Ne.symm hsame), if_neg hsame, zero_add]
      have hown : (keys.map fun key => if key = item.1 then item.2 else 0).sum = item.2 := by
        rw [List.sum_map_eq_nsmul_single item.1 _ fun key hne _ => if_neg hne,
          List.count_eq_one_of_mem hkeys (h item.1 (by simp)), if_pos rfl, one_nsmul]
      simp only [hsplit, List.sum_map_add, hown, List.map_cons, List.sum_cons, hrest]
      rfl

end Dict

end QuantumPlatform.Python
