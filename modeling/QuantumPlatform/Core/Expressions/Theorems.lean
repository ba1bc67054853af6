import QuantumPlatform.Core.Expressions

namespace QuantumPlatform.Core

open Parsing Python

section texts

variable (unicode : Unicode)

-- How tokens are written: with blanks wherever one likes, and a name up to the next
-- character that cannot belong to it.
inductive Spells : List (Token String Connective) → List Char → Prop where
  | nil : Spells [] []
  | blank {char : Char} {tokens : List (Token String Connective)} {chars : List Char}
      (hchar : blank char = true) (rest : Spells tokens chars) : Spells tokens (char :: chars)
  | symbol {char : Char} {token : Token String Connective} {tokens : List (Token String Connective)}
      {chars : List Char} (hchar : symbol char = some token) (rest : Spells tokens chars) :
      Spells (token :: tokens) (char :: chars)
  | name {text name : String} {tokens : List (Token String Connective)} {chars : List Char}
      (hname : unicode.readName text = some name)
      (hend : ∀ char ∈ chars.head?, nameChar char = false) (rest : Spells tokens chars) :
      Spells (.atom name :: tokens) (text.toList ++ chars)

-- A text of the tree, with Python's precedence and any parentheses.
def Written (tree : Expression) (text : String) : Prop :=
  ∃ tokens, Derives Connective.level 3 0 tree tokens ∧ Spells unicode tokens text.toList

variable {unicode} {tokens : List (Token String Connective)} {chars : List Char}

-- With parentheses around every binary operation each tree can be written.
theorem exists_derives (tree : Expression) : ∃ tokens, Derives Connective.level 3 3 tree tokens ∧
    ∀ name, .atom name ∈ tokens → name ∈ tree.names := by
  induction tree with
  | atom name => exact ⟨[.atom name], .atom name, by simp [Expression.names]⟩
  | unary operand ih =>
      obtain ⟨tokens, htokens, hatoms⟩ := ih
      exact ⟨.unary :: tokens, .unary htokens, by simpa [Expression.names] using hatoms⟩
  | binary op left right ihleft ihright =>
      obtain ⟨before, hbefore, hfirst⟩ := ihleft
      obtain ⟨after, hafter, hsecond⟩ := ihright
      have hlevel : op.level + 1 ≤ 3 := by cases op <;> decide
      have hbinary := Derives.binary op (hbefore.loosen _ (by omega)) (hafter.loosen _ hlevel)
      refine ⟨_, .group (hbinary.loosen _ (Nat.zero_le _)), fun name hmem => ?_⟩
      simp only [List.mem_cons, List.mem_append, reduceCtorEq, false_or, or_false,
        List.not_mem_nil] at hmem
      rcases hmem with hmem | hmem
      · exact List.mem_append_left _ (hfirst name hmem)
      · exact List.mem_append_right _ (hsecond name hmem)

theorem exists_spells (hnames : ∀ name, .atom name ∈ tokens → unicode.readName name = some name) :
    ∃ chars, Spells unicode tokens chars := by
  induction tokens with
  | nil => exact ⟨[], .nil⟩
  | cons token rest ih =>
      obtain ⟨chars, hchars⟩ := ih fun name hmem => hnames name (List.mem_cons_of_mem _ hmem)
      cases token with
      | atom name =>
          have hend : ∀ char ∈ (' ' :: chars).head?, nameChar char = false := by
            intro char hchar
            obtain rfl := Option.some.inj hchar
            decide
          exact ⟨_, .name (hnames name List.mem_cons_self) hend (.blank rfl hchars)⟩
      | unary => exact ⟨'~' :: chars, .symbol rfl hchars⟩
      | binary op =>
          cases op with
          | or => exact ⟨'|' :: chars, .symbol rfl hchars⟩
          | xor => exact ⟨'^' :: chars, .symbol rfl hchars⟩
          | and => exact ⟨'&' :: chars, .symbol rfl hchars⟩
      | opening => exact ⟨'(' :: chars, .symbol rfl hchars⟩
      | closing => exact ⟨')' :: chars, .symbol rfl hchars⟩

-- Every tree over names that the parser keeps as they are has a text.
theorem exists_written {tree : Expression}
    (hnames : ∀ name ∈ tree.names, unicode.readName name = some name) :
    ∃ text, Written unicode tree text := by
  obtain ⟨tokens, hderives, hatoms⟩ := exists_derives tree
  obtain ⟨chars, hspells⟩ := exists_spells fun name hmem => hnames name (hatoms name hmem)
  refine ⟨String.ofList chars, tokens, hderives.loosen _ (by omega), ?_⟩
  rwa [String.toList_ofList]

theorem not_nameChar_of_symbol {char : Char} {token : Token String Connective}
    (h : symbol char = some token) : nameChar char = false ∧ blank char = false := by
  unfold symbol at h
  split at h
  · decide
  · decide
  · decide
  · decide
  · decide
  · decide
  · cases h

theorem not_nameChar_of_blank {char : Char} (h : blank char = true) : nameChar char = false := by
  unfold blank at h
  rw [Bool.or_eq_true, decide_eq_true_eq, decide_eq_true_eq] at h
  rcases h with rfl | rfl
  · decide
  · decide

theorem nameChars_of_readName {text name : String} (h : unicode.readName text = some name) :
    text.toList.all nameChar = true ∧ text.toList ≠ [] := by
  unfold Unicode.readName at h
  by_cases hread : unicode.identifier text ∧ text ∉ reservedWords ∧
      unicode.normal text ∉ reservedWords
  · obtain ⟨hidentifier, -, -⟩ := hread
    unfold Unicode.identifier at hidentifier
    rw [Bool.and_eq_true] at hidentifier
    refine ⟨hidentifier.1, fun hempty => ?_⟩
    have hlast := hidentifier.2
    simp [isAscii, hempty] at hlast
  · rw [if_neg hread] at h
    cases h

-- A run of name characters is kept until it ends.
theorem lexFrom_name (pending name : List Char) (hname : name.all nameChar = true)
    (hend : ∀ char ∈ chars.head?, nameChar char = false) :
    lexFrom unicode pending (name ++ chars) =
      withName unicode (pending ++ name) (lexFrom unicode [] chars) := by
  induction name generalizing pending with
  | nil =>
      rw [List.nil_append, List.append_nil]
      cases chars with
      | nil =>
          rw [lexFrom, lexFrom]
          rfl
      | cons char rest =>
          have hchar : nameChar char = false := hend char rfl
          rw [lexFrom, lexFrom, hchar]
          cases blank char with
          | false => rfl
          | true => rfl
  | cons char rest ih =>
      rw [List.all_cons, Bool.and_eq_true] at hname
      rw [List.cons_append, lexFrom, hname.1, if_pos rfl, ih (pending ++ [char]) hname.2,
        List.append_assoc, List.singleton_append]

theorem Spells.lex (h : Spells unicode tokens chars) : lexFrom unicode [] chars = some tokens := by
  induction h with
  | nil => rfl
  | blank hchar _ ih =>
      rw [lexFrom, not_nameChar_of_blank hchar, hchar, ih]
      rfl
  | symbol hchar _ ih =>
      rw [lexFrom, (not_nameChar_of_symbol hchar).1, (not_nameChar_of_symbol hchar).2, hchar, ih]
      rfl
  | @name text name tokens chars hname hend _ ih =>
      obtain ⟨hchars, hne⟩ := nameChars_of_readName hname
      rw [lexFrom_name [] text.toList hchars hend, List.nil_append, withName, if_neg hne,
        String.ofList_toList, hname, ih]
      rfl

-- The text is read as the tree.
theorem Written.parse {tree : Expression} {text : String} (h : Written unicode tree text) :
    (lexFrom unicode [] text.toList).bind (parse Connective.level) = some tree := by
  obtain ⟨tokens, hderives, hspells⟩ := h
  rw [hspells.lex]
  exact hderives.parse

end texts

section values

variable {assignment : Dict String Bool} {tree : Expression}

-- A Boolean as the object that stands for it.
def ofBool (value : Bool) : PyValue := .bit (if value then 1 else 0)

theorem invert_ofBool (value : Bool) : (ofBool value).invert = .ok (ofBool !value) := by
  cases value <;> rfl

theorem connect_ofBool (op : Connective) (first second : Bool) :
    (ofBool first).connect op (ofBool second) = .ok (ofBool (op.onBools first second)) := by
  cases op <;> cases first <;> cases second <;> rfl

theorem toBool_ofBool (value : Bool) : (ofBool value).toBool = .ok value := by
  cases value <;> rfl

-- Whatever the shape of the tree, the wrapped type is never left.
theorem evaluate_eq (hnames : ∀ name ∈ tree.names, name ∈ assignment.keys) :
    evaluate assignment tree = .ok (ofBool (tree.value fun name => assignment.get name false)) := by
  induction tree with
  | atom name =>
      obtain ⟨val, hval⟩ : ∃ val, assignment.get? name = some val := by
        obtain ⟨⟨key, val⟩, hmem, rfl⟩ := List.mem_map.mp (hnames name List.mem_cons_self)
        exact ⟨val, assignment.mem_items_iff.mp hmem⟩
      rw [evaluate, lookup, Expression.value, Dict.get, hval]
      rfl
  | unary operand ih =>
      rw [evaluate, ih hnames]
      exact invert_ofBool _
  | binary op left right ihleft ihright =>
      rw [evaluate, ihleft fun name hmem => hnames name (List.mem_append_left _ hmem),
        ihright fun name hmem => hnames name (List.mem_append_right _ hmem)]
      exact connect_ofBool op _ _

theorem names_of_subexpression {sub : Expression} (h : sub ∈ tree.subexpressions) :
    ∀ name ∈ sub.names, name ∈ tree.names := by
  induction tree with
  | atom name =>
      obtain rfl := List.mem_singleton.mp h
      exact fun _ hmem => hmem
  | unary operand ih =>
      rcases List.mem_cons.mp h with rfl | h
      · exact fun _ hmem => hmem
      · exact ih h
  | binary op left right ihleft ihright =>
      rcases List.mem_cons.mp h with rfl | h
      · exact fun _ hmem => hmem
      · rcases List.mem_append.mp h with h | h
        · exact fun name hmem => List.mem_append_left _ (ihleft h name hmem)
        · exact fun name hmem => List.mem_append_right _ (ihright h name hmem)

theorem evalBooleanExpression_written {unicode : Unicode}
    {elsewhere : String → Dict String Bool → Except Ordinary Bool} {text : String}
    (hwritten : Written unicode tree text) (hnames : ∀ name ∈ tree.names, name ∈ assignment.keys) :
    evalBooleanExpression unicode elsewhere text assignment =
      .ok (tree.value fun name => assignment.get name false) := by
  rw [evalBooleanExpression, hwritten.parse]
  change (do (← evaluate assignment tree).toBool) = _
  rw [evaluate_eq hnames]
  exact toBool_ofBool _

-- Only the variables of the tree matter.
theorem value_congr {first second : String → Bool}
    (h : ∀ name ∈ tree.names, first name = second name) : tree.value first = tree.value second := by
  induction tree with
  | atom name => exact h name List.mem_cons_self
  | unary operand ih => rw [Expression.value, Expression.value, ih h]
  | binary op left right ihleft ihright =>
      rw [Expression.value, Expression.value,
        ihleft fun name hmem => h name (List.mem_append_left _ hmem),
        ihright fun name hmem => h name (List.mem_append_right _ hmem)]

end values

end QuantumPlatform.Core
