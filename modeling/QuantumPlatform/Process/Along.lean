import Mathlib.Data.List.Forall2
import Mathlib.Data.List.Induction

namespace QuantumPlatform.Process

variable {ε : Type} {P Q : List ε → ε → Prop} {inv : List ε → Prop}

-- Every item of the list stands in the relation to the items before it.
def Along (P : List ε → ε → Prop) (items : List ε) : Prop :=
  ∀ seen item, seen ++ [item] <+: items → P seen item

namespace Along

theorem nil : Along P [] := by
  intro seen item hseen
  have := hseen.length_le
  simp at this

theorem concat_iff {items : List ε} {item : ε} :
    Along P (items ++ [item]) ↔ Along P items ∧ P items item := by
  constructor
  · intro h
    exact ⟨fun seen other hseen => h seen other (hseen.trans (List.prefix_append _ _)),
      h items item (List.prefix_refl _)⟩
  · rintro ⟨hitems, hitem⟩ seen other hseen
    rcases List.prefix_concat_iff.mp hseen with heq | hseen
    · obtain ⟨rfl, hother⟩ := List.append_inj' heq rfl
      obtain rfl := List.singleton_inj.mp hother
      exact hitem
    · exact hitems seen other hseen

-- What every item carries over holds at the end.
theorem invariant {items : List ε} (h : Along P items) (hnil : inv [])
    (hstep : ∀ seen item, inv seen → P seen item → inv (seen ++ [item])) : inv items := by
  induction items using List.reverseRecOn with
  | nil => exact hnil
  | append_singleton items item ih =>
      obtain ⟨hitems, hitem⟩ := concat_iff.mp h
      exact hstep items item (ih hitems) hitem

-- Two relations that agree as long as the invariant holds, and the first of which keeps it,
-- hold along the same lists.
theorem congr {items : List ε} (hnil : inv [])
    (hiff : ∀ seen item, seen ++ [item] <+: items → inv seen → (P seen item ↔ Q seen item))
    (hstep : ∀ seen item, inv seen → P seen item → inv (seen ++ [item])) :
    Along P items ↔ Along Q items := by
  induction items using List.reverseRecOn with
  | nil => exact ⟨fun _ => nil, fun _ => nil⟩
  | append_singleton items item ih =>
      have hitems := ih fun seen other hseen =>
        hiff seen other (hseen.trans (List.prefix_append _ _))
      have hinv : Along Q items → inv items := fun h => (hitems.mpr h).invariant hnil hstep
      have hlast := hiff items item (List.prefix_refl _)
      rw [concat_iff, concat_iff, hitems]
      exact ⟨fun h => ⟨h.1, (hlast (hinv h.1)).mp h.2⟩, fun h => ⟨h.1, (hlast (hinv h.1)).mpr h.2⟩⟩

-- What stands in a relation item by item carries a property over if each of its steps does.
theorem of_forall₂ {δ : Type} {R : δ → ε → Prop} {P : List δ → δ → Prop} {items : List δ}
    {others : List ε} (hitems : List.Forall₂ R items others) (h : Along P items)
    (hstep : ∀ seen item past other, List.Forall₂ R seen past → R item other → P seen item →
      Q past other) : Along Q others := by
  intro past other hpast
  obtain ⟨rest, rfl⟩ := hpast
  have hfirst := List.forall₂_take_append items (past ++ [other]) rest hitems
  have hseen := List.forall₂_take_append _ past [other] hfirst
  have hitem := List.forall₂_drop_append _ past [other] hfirst
  obtain ⟨item, more, hlast, hnil, hdrop⟩ := List.forall₂_cons_right_iff.mp hitem
  obtain rfl := List.forall₂_nil_right_iff.mp hnil
  have hsplit := List.take_append_drop past.length (items.take (past ++ [other]).length)
  rw [hdrop] at hsplit
  have hprefix : (items.take (past ++ [other]).length).take past.length ++ [item] <+: items := by
    rw [hsplit]
    exact List.take_prefix _ _
  exact hstep _ item past other hseen hlast (h _ item hprefix)

end Along

section alongside

variable {δ : Type} (f : List ε → ε → δ)

-- What every item comes to, given the items before it.
def alongside (items : List ε) : List δ :=
  items.zipIdx.map fun entry => f (items.take entry.2) entry.1

@[simp] theorem alongside_nil : alongside f [] = [] := rfl

theorem alongside_concat (items : List ε) (item : ε) :
    alongside f (items ++ [item]) = alongside f items ++ [f items item] := by
  unfold alongside
  rw [List.zipIdx_append, List.map_append]
  have hearlier : items.zipIdx.map (fun entry => f ((items ++ [item]).take entry.2) entry.1) =
      items.zipIdx.map fun entry => f (items.take entry.2) entry.1 := by
    refine List.map_congr_left fun entry hentry => ?_
    have hplace : entry.2 < items.length := by
      have hbound := List.snd_lt_of_mem_zipIdx hentry
      simpa using hbound
    rw [List.take_append_of_le_length (Nat.le_of_lt hplace)]
  rw [hearlier]
  simp

end alongside

end QuantumPlatform.Process
