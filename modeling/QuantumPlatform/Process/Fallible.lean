import Mathlib.Control.Monad.Basic
import Mathlib.Data.List.Forall2

namespace QuantumPlatform.Process

-- Computations that may fail, one after the other and over a list.
variable {ε α β γ : Type}

theorem bind_eq_ok {first : Except ε α} {next : α → Except ε β} {value : β} :
    first >>= next = .ok value ↔ ∃ found, first = .ok found ∧ next found = .ok value := by
  cases first with
  | error exc => exact ⟨fun h => (nomatch h), fun ⟨_, h, _⟩ => (nomatch h)⟩
  | ok found => exact ⟨fun h => ⟨found, rfl, h⟩, fun ⟨_, h, hnext⟩ => Except.ok.inj h ▸ hnext⟩

theorem ok_bind (value : α) (next : α → Except ε β) : (Except.ok value >>= next) = next value := rfl

theorem bind_map_eq (f : α → β) (first : Except ε α) (next : β → Except ε γ) :
    first.map f >>= next = first >>= fun value => next (f value) := by
  cases first with
  | error exc => rfl
  | ok value => rfl

theorem map_eq_ok {f : α → β} {first : Except ε α} {value : β} :
    f <$> first = .ok value ↔ ∃ found, first = .ok found ∧ f found = value := by
  cases first with
  | error exc => exact ⟨fun h => (nomatch h), fun ⟨_, h, _⟩ => (nomatch h)⟩
  | ok found => exact ⟨fun h => ⟨found, rfl, Except.ok.inj h⟩,
      fun ⟨_, h, hvalue⟩ => Except.ok.inj h ▸ congrArg Except.ok hvalue⟩

variable {f : α → Except ε β} {items : List α} {values : List β}

theorem mapM_cons_ok {item : α} (h : (item :: items).mapM f = .ok values) :
    ∃ value others, f item = .ok value ∧ items.mapM f = .ok others ∧ values = value :: others := by
  rw [List.mapM_cons, bind_eq_ok] at h
  obtain ⟨value, hvalue, h⟩ := h
  obtain ⟨others, hothers, h⟩ := bind_eq_ok.mp h
  exact ⟨value, others, hvalue, hothers, (Except.ok.inj h).symm⟩

theorem exists_mapM (h : ∀ item ∈ items, ∃ value, f item = .ok value) :
    ∃ values, items.mapM f = .ok values := by
  induction items with
  | nil => exact ⟨[], rfl⟩
  | cons item rest ih =>
      obtain ⟨value, hvalue⟩ := h item List.mem_cons_self
      obtain ⟨values, hvalues⟩ := ih fun other hmem => h other (List.mem_cons_of_mem item hmem)
      refine ⟨value :: values, ?_⟩
      rw [List.mapM_cons, hvalue, hvalues]
      rfl

theorem mapM_eq_map {g : α → β} (h : ∀ item ∈ items, f item = .ok (g item)) :
    items.mapM f = .ok (items.map g) := by
  induction items with
  | nil => rfl
  | cons item rest ih =>
      rw [List.mapM_cons, h item List.mem_cons_self,
        ih fun other hmem => h other (List.mem_cons_of_mem item hmem)]
      rfl

theorem mem_of_mapM (h : items.mapM f = .ok values) {value : β} :
    value ∈ values ↔ ∃ item ∈ items, f item = .ok value := by
  induction items generalizing values with
  | nil =>
      obtain rfl : [] = values := Except.ok.inj h
      simp
  | cons item rest ih =>
      obtain ⟨first, others, hfirst, hothers, rfl⟩ := mapM_cons_ok h
      simp [ih hothers, hfirst, eq_comm]

-- What every element keeps, the whole list keeps.
theorem map_eq_of_mapM {g : α → γ} {keep : β → γ}
    (hf : ∀ item ∈ items, ∀ value, f item = .ok value → keep value = g item)
    (h : items.mapM f = .ok values) : values.map keep = items.map g := by
  induction items generalizing values with
  | nil =>
      obtain rfl : [] = values := Except.ok.inj h
      rfl
  | cons item rest ih =>
      obtain ⟨first, others, hfirst, hothers, rfl⟩ := mapM_cons_ok h
      rw [List.map_cons, List.map_cons, hf item List.mem_cons_self first hfirst,
        ih (fun other hmem => hf other (List.mem_cons_of_mem item hmem)) hothers]

-- Two computations that fail alike, or come to related values.
inductive Alike (R : α → β → Prop) : Except ε α → Except ε β → Prop where
  | error (exc : ε) : Alike R (.error exc) (.error exc)
  | ok {first : α} {second : β} : R first second → Alike R (.ok first) (.ok second)

namespace Alike

variable {δ : Type} {R : α → β → Prop} {S : γ → δ → Prop}

theorem bind {first : Except ε α} {second : Except ε β} {next : α → Except ε γ}
    {next' : β → Except ε δ} (h : Alike R first second)
    (hnext : ∀ value value', R value value' → Alike S (next value) (next' value')) :
    Alike S (first >>= next) (second >>= next') := by
  cases h with
  | error exc => exact .error exc
  | ok hvalue => exact hnext _ _ hvalue

-- After a computation that both have in common.
theorem bind_common {first : Except ε α} {next : α → Except ε γ} {next' : α → Except ε δ}
    (hnext : ∀ value, Alike S (next value) (next' value)) :
    Alike S (first >>= next) (first >>= next') := by
  cases first with
  | error exc => exact .error exc
  | ok value => exact hnext value

theorem eq {first second : Except ε α} (h : Alike (fun value other => value = other) first second) :
    first = second := by
  cases h with
  | error exc => rfl
  | ok hvalue => rw [hvalue]

theorem mapM {f : α → Except ε γ} {g : β → Except ε δ} {items : List α} {others : List β}
    (hf : ∀ item other, R item other → Alike S (f item) (g other))
    (h : List.Forall₂ R items others) :
    Alike (List.Forall₂ S) (items.mapM f) (others.mapM g) := by
  induction h with
  | nil => exact .ok .nil
  | cons hitem _ ih =>
      rw [List.mapM_cons, List.mapM_cons]
      refine (hf _ _ hitem).bind fun value value' hvalue => ?_
      exact ih.bind fun values values' hvalues => .ok (.cons hvalue hvalues)

theorem foldlM {f : γ → α → Except ε γ} {g : δ → β → Except ε δ} {items : List α}
    {others : List β} {start : γ} {start' : δ}
    (hf : ∀ seen seen' item other, S seen seen' → R item other → Alike S (f seen item) (g seen' other))
    (hstart : S start start') (h : List.Forall₂ R items others) :
    Alike S (items.foldlM f start) (others.foldlM g start') := by
  induction h generalizing start start' with
  | nil => exact .ok hstart
  | cons hitem _ ih =>
      rw [List.foldlM_cons, List.foldlM_cons]
      exact (hf _ _ _ _ hstart hitem).bind fun _ _ hseen => ih hseen

end Alike

end QuantumPlatform.Process
