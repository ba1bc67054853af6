import QuantumPlatform.Python.Compare
import Mathlib.Algebra.Order.Ring.Rat
import Mathlib.Order.Lattice

namespace QuantumPlatform.Python

section figures

-- What Python prints for an integer, or for a float that is a number: digits after a sign, with
-- a point and an exponent, where there is one.
structure Figure (text : String) : Prop where
  first : ∃ char, text.toList.head? = some char ∧ (char.isDigit = true ∨ char = '-')
  chars : ∀ char ∈ text.toList, char.isDigit = true ∨ char ∈ ['-', '+', '.', 'e']
  last : text.toList.getLast?.any Char.isDigit = true

variable {text : String} {number : ℕ}

theorem Figure.free (h : Figure text) {separator : Char} (hdigit : separator.isDigit = false)
    (hsign : separator ∉ ['-', '+', '.', 'e']) : separator ∉ text.toList := by
  intro hmem
  rcases h.chars separator hmem with hseparator | hseparator
  · rw [hdigit] at hseparator
    cases hseparator
  · exact hsign hseparator

theorem Figure.toList_ne_nil (h : Figure text) : text.toList ≠ [] := by
  obtain ⟨first, hfirst, -⟩ := h.first
  intro hnil
  rw [hnil] at hfirst
  cases hfirst

theorem isDigit_of_mem_repr {char : Char} (h : char ∈ number.repr.toList) : char.isDigit = true := by
  rw [Nat.toList_repr] at h
  exact Nat.isDigit_of_mem_toDigits (by decide) (by decide) h

theorem toList_repr_ne_nil (number : ℕ) : number.repr.toList ≠ [] := by
  rw [Nat.toList_repr]
  exact Nat.toDigits_ne_nil

theorem nat_figure (number : ℕ) : Figure number.repr := by
  have hne := toList_repr_ne_nil number
  refine ⟨⟨_, List.head?_eq_some_head hne, .inl (isDigit_of_mem_repr (List.head_mem hne))⟩,
    fun char hmem => .inl (isDigit_of_mem_repr hmem), ?_⟩
  rw [List.getLast?_eq_some_getLast hne]
  exact isDigit_of_mem_repr (List.getLast_mem hne)

-- A sign before a number.
theorem Figure.signed (h : Figure text) : Figure ("-" ++ text) := by
  have hlist : ("-" ++ text).toList = '-' :: text.toList := by rw [String.toList_append]; rfl
  refine ⟨⟨'-', by rw [hlist]; rfl, .inr rfl⟩, fun char hmem => ?_, ?_⟩
  · rw [hlist] at hmem
    rcases List.mem_cons.mp hmem with rfl | hmem
    · exact .inr (by simp)
    · exact h.chars char hmem
  · rw [hlist]
    cases hchars : text.toList with
    | nil => exact absurd hchars h.toList_ne_nil
    | cons next rest =>
        rw [List.getLast?_cons_cons, ← hchars]
        exact h.last

theorem int_figure (value : Int) : Figure (toString value) := by
  rw [Int.toString_eq_repr]
  cases value with
  | ofNat number => exact nat_figure number
  | negSucc number => exact (nat_figure number.succ).signed

end figures

section floats

-- How many decimals a number has, or seventeen if they do not end.
def decimalPlaces (value : ℚ) : ℕ :=
  ((List.range 400).find? fun places => 10 ^ places % value.den = 0).getD 17

def exponentText (exponent : Int) : List Char :=
  let digits := exponent.natAbs.repr.toList
  if digits.length < 2 then '0' :: digits else digits

def scientificText (digits : List Char) (exponent : Int) : List Char :=
  let mantissa := (digits.reverse.dropWhile fun digit => digit = '0').reverse
  digits.take 1 ++ (if mantissa.length ≤ 1 then [] else '.' :: mantissa.drop 1) ++
    ['e', if exponent < 0 then '-' else '+'] ++ exponentText exponent

-- The digits with the point among them, or with an exponent if they are far from it.
def unsignedText (digits : List Char) (point : Int) : List Char :=
  if point ≤ -4 ∨ 16 < point then scientificText digits (point - 1)
  else if point ≤ 0 then '0' :: '.' :: (List.replicate point.natAbs '0' ++ digits)
  else digits.take point.toNat ++ ['.'] ++
    if digits.length ≤ point.toNat then ['0'] else digits.drop point.toNat

-- `repr(value)` of a float.
def floatText (value : ℚ) : String :=
  let digits := (value.num.natAbs * 10 ^ decimalPlaces value / value.den).repr
  let text := String.ofList (unsignedText digits.toList (digits.length - decimalPlaces value))
  if value < 0 then "-" ++ text else text

variable {digits : List Char}

theorem figure_ofList {chars last : List Char} (before : List Char)
    (hfirst : ∃ first, chars.head? = some first ∧ first.isDigit = true)
    (hchars : ∀ char ∈ chars, char.isDigit = true ∨ char ∈ ['-', '+', '.', 'e'])
    (hlast : chars = before ++ last) (hne : last ≠ []) (hdigits : ∀ char ∈ last, char.isDigit = true) :
    Figure (String.ofList chars) := by
  obtain ⟨first, hhead, hdigit⟩ := hfirst
  refine ⟨⟨first, by rw [String.toList_ofList]; exact hhead, .inl hdigit⟩, fun char hmem => ?_, ?_⟩
  · rw [String.toList_ofList] at hmem
    exact hchars char hmem
  · rw [String.toList_ofList, hlast, List.getLast?_append_of_ne_nil _ hne,
      List.getLast?_eq_some_getLast hne]
    exact hdigits _ (List.getLast_mem hne)

variable (hne : digits ≠ []) (hdigits : ∀ char ∈ digits, char.isDigit = true)
include hne hdigits

theorem head?_take_append {count : ℕ} (hcount : 0 < count) (rest : List Char) :
    ∃ first, (digits.take count ++ rest).head? = some first ∧ first.isDigit = true := by
  obtain ⟨first, others, rfl⟩ := List.exists_cons_of_ne_nil hne
  obtain ⟨count, rfl⟩ := Nat.exists_eq_succ_of_ne_zero hcount.ne'
  exact ⟨first, rfl, hdigits first List.mem_cons_self⟩

theorem scientificText_figure (exponent : Int) :
    Figure (String.ofList (scientificText digits exponent)) := by
  have hexponent : exponentText exponent ≠ [] ∧
      ∀ char ∈ exponentText exponent, char.isDigit = true := by
    have hrepr : ∀ char ∈ exponent.natAbs.repr.toList, char.isDigit = true :=
      fun char hmem => isDigit_of_mem_repr hmem
    unfold exponentText
    simp only
    split_ifs
    · exact ⟨by simp, List.forall_mem_cons.mpr ⟨rfl, hrepr⟩⟩
    · exact ⟨toList_repr_ne_nil _, hrepr⟩
  have hmantissa : ∀ char ∈ (digits.reverse.dropWhile fun digit => digit = '0').reverse,
      char.isDigit = true := fun char hmem => hdigits char
    (List.mem_reverse.mp ((List.dropWhile_sublist _).subset (List.mem_reverse.mp hmem)))
  refine figure_ofList _ ?_ ?_ rfl hexponent.1 hexponent.2
  · unfold scientificText
    rw [List.append_assoc, List.append_assoc]
    exact head?_take_append hne hdigits Nat.one_pos _
  · intro char hmem
    simp only [scientificText, List.mem_append] at hmem
    rcases hmem with ((hfirst | hfraction) | hsign) | hmem
    · exact .inl (hdigits char (List.mem_of_mem_take hfirst))
    · split_ifs at hfraction
      · cases hfraction
      · rcases List.mem_cons.mp hfraction with rfl | hfraction
        · exact .inr (by simp)
        · exact .inl (hmantissa char (List.mem_of_mem_drop hfraction))
    · right
      split_ifs at hsign
      · simp only [List.mem_cons, List.not_mem_nil, or_false] at hsign ⊢
        tauto
      · simp only [List.mem_cons, List.not_mem_nil, or_false] at hsign ⊢
        tauto
    · exact .inl (hexponent.2 char hmem)

-- Whatever the notation, the text starts with a digit and ends with digits.
theorem unsignedText_figure (point : Int) : Figure (String.ofList (unsignedText digits point)) := by
  unfold unsignedText
  by_cases hexponent : point ≤ -4 ∨ 16 < point
  · rw [if_pos hexponent]
    exact scientificText_figure hne hdigits _
  rw [if_neg hexponent]
  by_cases hsmall : point ≤ 0
  · rw [if_pos hsmall]
    refine figure_ofList ('0' :: '.' :: List.replicate point.natAbs '0') ⟨'0', rfl, rfl⟩
      ?_ rfl hne hdigits
    intro char hmem
    simp only [List.mem_cons, List.mem_append] at hmem
    rcases hmem with rfl | rfl | hzero | hmem
    · exact .inl rfl
    · exact .inr (by simp)
    · exact .inl (by rw [List.eq_of_mem_replicate hzero]; rfl)
    · exact .inl (hdigits char hmem)
  · rw [if_neg hsmall, List.append_assoc]
    have hfraction : (if digits.length ≤ point.toNat then ['0'] else digits.drop point.toNat) ≠ [] ∧
        ∀ char ∈ (if digits.length ≤ point.toNat then ['0'] else digits.drop point.toNat),
          char.isDigit = true := by
      split_ifs with hlength
      · exact ⟨by simp, fun char hmem => by rw [List.mem_singleton.mp hmem]; rfl⟩
      · refine ⟨?_, fun char hmem => hdigits char (List.mem_of_mem_drop hmem)⟩
        rw [ne_eq, List.drop_eq_nil_iff]
        exact hlength
    refine figure_ofList _ (head?_take_append hne hdigits (by omega) _) ?_ (List.append_assoc _ _ _).symm
      hfraction.1 hfraction.2
    intro char hmem
    simp only [List.mem_append, List.mem_singleton] at hmem
    rcases hmem with hwhole | rfl | hmem
    · exact .inl (hdigits char (List.mem_of_mem_take hwhole))
    · exact .inr (by simp)
    · exact .inl (hfraction.2 char hmem)

omit hne hdigits in
theorem floatText_figure (value : ℚ) : Figure (floatText value) := by
  have htext := unsignedText_figure
    (toList_repr_ne_nil (value.num.natAbs * 10 ^ decimalPlaces value / value.den))
    fun char hmem => isDigit_of_mem_repr hmem
  unfold floatText
  split_ifs
  · exact (htext _).signed
  · exact htext _

example : [30, -1 / 2, 1 / 20, 21 / 100000000, 300000000000000000].map floatText =
    ["30.0", "-0.5", "0.05", "2.1e-07", "3e+17"] := by decide +kernel

end floats

end QuantumPlatform.Python
