import Mathlib.Data.List.Basic

namespace QuantumPlatform.Process

-- The operations a program may ask its environment for, and the answers
-- each of them may get.
structure Signature where
  Op : Type
  Ans : Op → Type

-- A program is a tree: it returns, or it performs an operation and goes on
-- with whatever the environment answered. Between two operations nothing else
-- can be observed, so the operations are exactly the points where a process
-- may be suspended, interleaved or killed.
inductive Program (sig : Signature) (α : Type) where
  | ret (value : α)
  | call (op : sig.Op) (next : sig.Ans op → Program sig α)

abbrev Event (sig : Signature) := (op : sig.Op) × sig.Ans op

namespace Program

variable {sig : Signature} {α β γ : Type}

def bind : Program sig α → (α → Program sig β) → Program sig β
  | .ret value, f => f value
  | .call op next, f => .call op fun answer => (next answer).bind f

instance : Monad (Program sig) where
  pure := .ret
  bind := bind

def perform (op : sig.Op) : Program sig (sig.Ans op) :=
  .call op .ret

@[simp] theorem ret_bind (value : α) (f : α → Program sig β) :
    (Program.ret value).bind f = f value := rfl

@[simp] theorem call_bind (op : sig.Op) (next : sig.Ans op → Program sig α)
    (f : α → Program sig β) :
    (Program.call op next).bind f = .call op fun answer => (next answer).bind f := rfl

theorem bind_ret (program : Program sig α) : program.bind .ret = program := by
  induction program with
  | ret value => rfl
  | call op next ih => simp only [call_bind, ih]

theorem bind_assoc (program : Program sig α) (f : α → Program sig β) (g : β → Program sig γ) :
    (program.bind f).bind g = program.bind fun value => (f value).bind g := by
  induction program with
  | ret value => rfl
  | call op next ih => simp only [call_bind, ih]

instance : LawfulMonad (Program sig) :=
  LawfulMonad.mk' (Program sig) bind_ret (fun _ _ => rfl) bind_assoc

-- `Trace program events rest`: the environment answered `events` in order,
-- and `rest` is what is left of the program.
inductive Trace : Program sig α → List (Event sig) → Program sig α → Prop where
  | stop (program : Program sig α) : Trace program [] program
  | step (op : sig.Op) (next : sig.Ans op → Program sig α) (answer : sig.Ans op)
      {events : List (Event sig)} {rest : Program sig α} (tail : Trace (next answer) events rest) :
      Trace (.call op next) (⟨op, answer⟩ :: events) rest

theorem Trace.bind {program rest : Program sig α} {events : List (Event sig)}
    (h : program.Trace events rest) (f : α → Program sig β) :
    (program.bind f).Trace events (rest.bind f) := by
  induction h with
  | stop program => exact .stop _
  | step op next answer tail ih => exact .step op _ answer ih

theorem Trace.append {program middle rest : Program sig α} {first second : List (Event sig)}
    (h : program.Trace first middle) (hnext : middle.Trace second rest) :
    program.Trace (first ++ second) rest := by
  induction h with
  | stop program => exact hnext
  | step op next answer tail ih => exact .step op next answer (ih hnext)

-- A sequence is at an operation of its first part, or its first part has
-- returned and the second has come this far.
theorem Trace.of_bind {program : Program sig α} {f : α → Program sig β}
    {events : List (Event sig)} {rest : Program sig β}
    (h : (program.bind f).Trace events rest) :
    (∃ op left, program.Trace events (.call op left) ∧
      rest = .call op fun answer => (left answer).bind f) ∨
    ∃ first value second, events = first ++ second ∧ program.Trace first (.ret value) ∧
      (f value).Trace second rest := by
  induction program generalizing events with
  | ret value => exact .inr ⟨[], value, events, rfl, .stop _, h⟩
  | call first next ih =>
      cases h with
      | stop => exact .inl ⟨first, next, .stop _, rfl⟩
      | step _ _ answer tail =>
          rcases ih answer tail with ⟨op, left, hleft, hrest⟩ |
            ⟨before, value, second, rfl, hbefore, hsecond⟩
          · exact .inl ⟨op, left, .step first next answer hleft, hrest⟩
          · exact .inr ⟨_, value, second, rfl, .step first next answer hbefore, hsecond⟩

-- A complete run of the program, with the value it returned.
def Returns (program : Program sig α) (events : List (Event sig)) (value : α) : Prop :=
  Trace program events (.ret value)

@[simp] theorem returns_ret (value : α) (events : List (Event sig)) (result : α) :
    Returns (.ret value : Program sig α) events result ↔ events = [] ∧ result = value := by
  constructor
  · intro h
    cases h
    exact ⟨rfl, rfl⟩
  · rintro ⟨rfl, rfl⟩
    exact .stop _

@[simp] theorem returns_call (op : sig.Op) (next : sig.Ans op → Program sig α)
    (events : List (Event sig)) (result : α) :
    Returns (.call op next) events result ↔
      ∃ answer rest, events = ⟨op, answer⟩ :: rest ∧ Returns (next answer) rest result := by
  constructor
  · intro h
    cases h with
    | step _ _ answer tail => exact ⟨answer, _, rfl, tail⟩
  · rintro ⟨answer, rest, rfl, tail⟩
    exact .step op next answer tail

-- A run of a sequence is a run of its first part followed by a run of the second.
theorem returns_bind (program : Program sig α) (f : α → Program sig β)
    (events : List (Event sig)) (result : β) :
    Returns (program.bind f) events result ↔
      ∃ first value second, events = first ++ second ∧
        Returns program first value ∧ Returns (f value) second result := by
  induction program generalizing events with
  | ret value =>
      simp only [ret_bind, returns_ret]
      constructor
      · intro h
        exact ⟨[], value, events, rfl, ⟨rfl, rfl⟩, h⟩
      · rintro ⟨first, other, second, rfl, ⟨rfl, rfl⟩, h⟩
        exact h
  | call op next ih =>
      simp only [call_bind, returns_call]
      constructor
      · rintro ⟨answer, rest, rfl, h⟩
        obtain ⟨first, value, second, rfl, hf, hs⟩ := (ih answer rest).mp h
        exact ⟨⟨op, answer⟩ :: first, value, second, rfl, ⟨answer, first, rfl, hf⟩, hs⟩
      · rintro ⟨first, value, second, rfl, ⟨answer, rest, rfl, hf⟩, hs⟩
        exact ⟨answer, rest ++ second, rfl, (ih answer _).mpr ⟨rest, value, second, rfl, hf, hs⟩⟩

-- Every operation the program can ever perform satisfies `allowed`.
def Only (allowed : sig.Op → Prop) : Program sig α → Prop
  | .ret _ => True
  | .call op next => allowed op ∧ ∀ answer, (next answer).Only allowed

theorem Only.bind {allowed : sig.Op → Prop} {program : Program sig α} {f : α → Program sig β}
    (hp : program.Only allowed) (hf : ∀ value, (f value).Only allowed) :
    (program.bind f).Only allowed := by
  induction program with
  | ret value => exact hf value
  | call op next ih => exact ⟨hp.1, fun answer => ih answer (hp.2 answer)⟩

theorem Only.mono {allowed permitted : sig.Op → Prop} {program : Program sig α}
    (h : program.Only allowed) (himp : ∀ op, allowed op → permitted op) :
    program.Only permitted := by
  induction program with
  | ret value => trivial
  | call op next ih => exact ⟨himp op h.1, fun answer => ih answer (h.2 answer)⟩

-- The operation that a run has come to is one of them.
theorem Only.at {allowed : sig.Op → Prop} {program : Program sig α} {events : List (Event sig)}
    {op : sig.Op} {next : sig.Ans op → Program sig α} (h : program.Only allowed)
    (ht : program.Trace events (.call op next)) : allowed op := by
  generalize hrest : Program.call op next = rest at ht
  induction ht with
  | stop program =>
      subst hrest
      exact h.1
  | step first rest answer tail ih => exact ih (h.2 answer) hrest

-- So is every operation of a run.
theorem Only.performed {allowed : sig.Op → Prop} {program rest : Program sig α}
    {events : List (Event sig)} (h : program.Only allowed) (ht : program.Trace events rest) :
    ∀ event ∈ events, allowed event.1 := by
  induction ht with
  | stop program => exact fun _ hmem => absurd hmem List.not_mem_nil
  | step op next answer tail ih =>
      intro event hmem
      rcases List.mem_cons.mp hmem with rfl | hlater
      · exact h.1
      · exact ih (h.2 answer) event hlater

-- Whatever the environment answers, what the program returns satisfies `post`.
def Ends (post : α → Prop) : Program sig α → Prop
  | .ret value => post value
  | .call _ next => ∀ answer, (next answer).Ends post

theorem Ends.bind {post : α → Prop} {final : β → Prop} {program : Program sig α}
    {f : α → Program sig β} (hp : program.Ends post)
    (hf : ∀ value, post value → (f value).Ends final) : (program.bind f).Ends final := by
  induction program with
  | ret value => exact hf value hp
  | call op next ih => exact fun answer => ih answer (hp answer)

theorem Ends.returns {post : α → Prop} {program : Program sig α} {events : List (Event sig)}
    {value : α} (h : program.Ends post) (hreturns : program.Returns events value) :
    post value := by
  induction program generalizing events with
  | ret result =>
      obtain ⟨-, rfl⟩ := (returns_ret _ _ _).mp hreturns
      exact h
  | call op next ih =>
      obtain ⟨answer, rest, -, hrest⟩ := (returns_call _ _ _ _).mp hreturns
      exact ih answer (h answer) hrest

-- Run against a deterministic environment with a state of its own.
def exec {σ : Type} (answer : (op : sig.Op) → σ → sig.Ans op × σ) :
    Program sig α → σ → α × σ
  | .ret value, state => (value, state)
  | .call op next, state => (next (answer op state).1).exec answer (answer op state).2

theorem exec_bind {σ : Type} (answer : (op : sig.Op) → σ → sig.Ans op × σ)
    (program : Program sig α) (f : α → Program sig β) (state : σ) :
    (program.bind f).exec answer state =
      (f (program.exec answer state).1).exec answer (program.exec answer state).2 := by
  induction program generalizing state with
  | ret value => rfl
  | call op next ih => exact ih _ _

-- Run against an environment that has one answer for an operation, or none:
-- then the run stops there.
def answered (answer : (op : sig.Op) → Option (sig.Ans op)) : Program sig α → Option α
  | .ret value => some value
  | .call op next => (answer op).bind fun value => (next value).answered answer

end Program

end QuantumPlatform.Process
