import QuantumPlatform.Process.Program

namespace QuantumPlatform.Process

-- A monitor watches the operations of a program. `allowed` says which operation
-- may be performed in a state, `admits` which answers the environment may give,
-- and `next` how an answered operation moves the state.
structure Monitor (sig : Signature) (State : Type) where
  allowed : State → sig.Op → Prop
  admits : State → (op : sig.Op) → sig.Ans op → Prop
  next : State → (op : sig.Op) → sig.Ans op → State

namespace Monitor

variable {sig : Signature} {State : Type} {α β : Type}

-- Fold a list of answered operations into the monitor.
def after (monitor : Monitor sig State) : State → List (Event sig) → State
  | state, [] => state
  | state, ⟨op, answer⟩ :: rest => monitor.after (monitor.next state op answer) rest

def Admits (monitor : Monitor sig State) : State → List (Event sig) → Prop
  | _, [] => True
  | state, ⟨op, answer⟩ :: rest =>
      monitor.admits state op answer ∧ monitor.Admits (monitor.next state op answer) rest

def Allows (monitor : Monitor sig State) : State → List (Event sig) → Prop
  | _, [] => True
  | state, ⟨op, answer⟩ :: rest =>
      monitor.allowed state op ∧ monitor.Allows (monitor.next state op answer) rest

-- The program performs allowed operations only, under every admitted answer,
-- and returns only where `post` holds.
def Obeys (monitor : Monitor sig State) (post : State → α → Prop) :
    State → Program sig α → Prop
  | state, .ret value => post state value
  | state, .call op next =>
      monitor.allowed state op ∧ ∀ answer, monitor.admits state op answer →
        monitor.Obeys post (monitor.next state op answer) (next answer)

variable {monitor : Monitor sig State} {post : State → α → Prop}

theorem Obeys.mono {other : State → α → Prop} (himp : ∀ state value, post state value →
      other state value) {state : State} {program : Program sig α}
    (h : monitor.Obeys post state program) : monitor.Obeys other state program := by
  induction program generalizing state with
  | ret value => exact himp state value h
  | call op next ih => exact ⟨h.1, fun answer ha => ih answer (h.2 answer ha)⟩

theorem Obeys.bind {final : State → β → Prop} {state : State} {program : Program sig α}
    {f : α → Program sig β} (hp : monitor.Obeys post state program)
    (hf : ∀ current value, post current value → monitor.Obeys final current (f value)) :
    monitor.Obeys final state (program.bind f) := by
  induction program generalizing state with
  | ret value => exact hf state value hp
  | call op next ih => exact ⟨hp.1, fun answer ha => ih answer (hp.2 answer ha)⟩

-- A program that only performs operations keeping `inv` keeps it, however many
-- of them it makes.
theorem Obeys.of_only {ignored : sig.Op → Prop} {inv : State → Prop} {state : State}
    (hallow : ∀ current op, inv current → ignored op → monitor.allowed current op)
    (hnext : ∀ current op, inv current → ignored op → ∀ answer,
      inv (monitor.next current op answer))
    {program : Program sig α} (h : program.Only ignored) (hinv : inv state) :
    monitor.Obeys (fun current _ => inv current) state program := by
  induction program generalizing state with
  | ret value => exact hinv
  | call op next ih =>
      refine ⟨hallow state op hinv h.1, fun answer _ => ?_⟩
      exact ih answer (h.2 answer) (hnext state op hinv h.1 answer)

-- What two monitors that move alike each know at the end is known to both.
theorem Obeys.meet {other : Monitor sig State} {also : State → α → Prop} {state : State}
    {program : Program sig α} (h : monitor.Obeys post state program)
    (hother : other.Obeys also state program)
    (hadmits : ∀ current op answer, other.admits current op answer →
      monitor.admits current op answer)
    (hnext : ∀ current op answer, other.next current op answer = monitor.next current op answer) :
    other.Obeys (fun current value => post current value ∧ also current value) state program := by
  induction program generalizing state with
  | ret value => exact ⟨h, hother⟩
  | call op next ih =>
      refine ⟨hother.1, fun answer ha => ?_⟩
      have hcont := hother.2 answer ha
      rw [hnext] at hcont ⊢
      exact ih answer (h.2 answer (hadmits state op answer ha)) hcont

theorem admits_all (hall : ∀ state op answer, monitor.admits state op answer) (state : State)
    (events : List (Event sig)) : monitor.Admits state events := by
  induction events generalizing state with
  | nil => trivial
  | cons event rest ih => exact ⟨hall _ _ _, ih _⟩

theorem after_eq {other : Monitor sig State}
    (hnext : ∀ state op answer, other.next state op answer = monitor.next state op answer)
    (state : State) (events : List (Event sig)) :
    other.after state events = monitor.after state events := by
  induction events generalizing state with
  | nil => rfl
  | cons event rest ih =>
      obtain ⟨op, answer⟩ := event
      rw [after, after, hnext]
      exact ih _

-- Along every admitted run prefix the operations are allowed, and what is
-- left of the program still obeys.
theorem Obeys.trace {state : State} {program rest : Program sig α} {events : List (Event sig)}
    (h : monitor.Obeys post state program) (ht : program.Trace events rest)
    (ha : monitor.Admits state events) :
    monitor.Allows state events ∧ monitor.Obeys post (monitor.after state events) rest := by
  induction ht generalizing state with
  | stop program => exact ⟨trivial, h⟩
  | step op next answer tail ih =>
      obtain ⟨hallowed, hrest⟩ := ih (h.2 answer ha.1) ha.2
      exact ⟨⟨h.1, hallowed⟩, hrest⟩

-- What every allowed operation and every end imply holds at each point of a run.
theorem Obeys.safe {safe : State → Prop} {state : State} {program rest : Program sig α}
    {events : List (Event sig)} (h : monitor.Obeys post state program)
    (ht : program.Trace events rest) (ha : monitor.Admits state events)
    (hallowed : ∀ current op, monitor.allowed current op → safe current)
    (hpost : ∀ current value, post current value → safe current) :
    safe (monitor.after state events) := by
  have hrest := (h.trace ht ha).2
  cases rest with
  | ret value => exact hpost _ value hrest
  | call op next => exact hallowed _ op hrest.1

-- If every allowed operation has an admitted answer, an obeying program always
-- reaches its end: the tree is finite along each branch.
theorem Obeys.completes {state : State} {program : Program sig α}
    (hanswer : ∀ state op, monitor.allowed state op → ∃ answer, monitor.admits state op answer)
    (h : monitor.Obeys post state program) :
    ∃ events value, program.Returns events value ∧ monitor.Admits state events := by
  induction program generalizing state with
  | ret value => exact ⟨[], value, .stop _, trivial⟩
  | call op next ih =>
      obtain ⟨answer, ha⟩ := hanswer state op h.1
      obtain ⟨events, value, hr, hadmits⟩ := ih answer (h.2 answer ha)
      exact ⟨⟨op, answer⟩ :: events, value, .step op next answer hr, ha, hadmits⟩

-- An environment that admits only some of the answers it might give.
def narrowed (monitor : Monitor sig State)
    (choice : State → (op : sig.Op) → sig.Ans op → Prop) : Monitor sig State :=
  { monitor with
    admits := fun state op answer => monitor.admits state op answer ∧ choice state op answer }

theorem Obeys.narrow {choice : State → (op : sig.Op) → sig.Ans op → Prop} {state : State}
    {program : Program sig α} (h : monitor.Obeys post state program) :
    (monitor.narrowed choice).Obeys post state program := by
  induction program generalizing state with
  | ret value => exact h
  | call op next ih => exact ⟨h.1, fun answer hadmits => ih answer (h.2 answer hadmits.1)⟩

theorem after_append (state : State) (first second : List (Event sig)) :
    monitor.after state (first ++ second) = monitor.after (monitor.after state first) second := by
  induction first generalizing state with
  | nil => rfl
  | cons event rest ih => exact ih _

theorem admits_append (state : State) (first second : List (Event sig)) :
    monitor.Admits state (first ++ second) ↔
      monitor.Admits state first ∧ monitor.Admits (monitor.after state first) second := by
  induction first generalizing state with
  | nil => exact (iff_of_eq (true_and _)).symm
  | cons event rest ih =>
      simp only [List.cons_append, Admits, ih, and_assoc]
      rfl

theorem allows_append (state : State) (first second : List (Event sig)) :
    monitor.Allows state (first ++ second) ↔
      monitor.Allows state first ∧ monitor.Allows (monitor.after state first) second := by
  induction first generalizing state with
  | nil => exact (iff_of_eq (true_and _)).symm
  | cons event rest ih =>
      simp only [List.cons_append, Allows, ih, and_assoc]
      rfl

-- Wherever an operation stands in an allowed run, it was allowed there.
theorem Allows.at {state : State} {before after : List (Event sig)} {op : sig.Op}
    {answer : sig.Ans op} (h : monitor.Allows state (before ++ ⟨op, answer⟩ :: after)) :
    monitor.allowed (monitor.after state before) op := by
  induction before generalizing state with
  | nil => exact h.1
  | cons event rest ih => exact ih h.2

-- A monitor without a state.
def stateless (allowed : sig.Op → Prop) : Monitor sig Unit where
  allowed _ op := allowed op
  admits _ _ _ := True
  next _ _ _ := ()

theorem Obeys.only {allowed : sig.Op → Prop} {post : Unit → α → Prop} {state : Unit}
    {program : Program sig α} (h : (stateless allowed).Obeys post state program) :
    program.Only allowed := by
  induction program with
  | ret value => trivial
  | call op next ih => exact ⟨h.1, fun answer => ih answer (h.2 answer trivial)⟩

section recording

variable (allowed : List (Event sig) → sig.Op → Prop)
  (admits : List (Event sig) → (op : sig.Op) → sig.Ans op → Prop)

-- A monitor that remembers all that has happened.
def recording : Monitor sig (List (Event sig)) where
  allowed := allowed
  admits := admits
  next past op answer := past ++ [⟨op, answer⟩]

variable {allowed admits}

theorem after_recording (past events : List (Event sig)) :
    (recording allowed admits).after past events = past ++ events := by
  induction events generalizing past with
  | nil => exact (List.append_nil past).symm
  | cons event rest ih =>
      obtain ⟨op, answer⟩ := event
      change (recording allowed admits).after (past ++ [⟨op, answer⟩]) rest = _
      rw [ih, List.append_assoc]
      rfl

-- What a program returns under a monitor that remembers everything, it returned on what
-- has been remembered since.
theorem recording_returns {ignored : sig.Op → Prop}
    (hallow : ∀ past op, ignored op → allowed past op) {program : Program sig α}
    (honly : program.Only ignored) (past : List (Event sig)) :
    (recording allowed admits).Obeys
      (fun later value => ∃ events, later = past ++ events ∧ program.Returns events value)
      past program := by
  induction program generalizing past with
  | ret value => exact ⟨[], (List.append_nil past).symm, .stop _⟩
  | call op next ih =>
      refine ⟨hallow past op honly.1, fun answer _ => ?_⟩
      refine (ih answer (honly.2 answer) _).mono ?_
      rintro later value ⟨events, rfl, hreturns⟩
      exact ⟨⟨op, answer⟩ :: events, List.append_assoc past _ _, .step op next answer hreturns⟩

theorem admits_recording {past events : List (Event sig)}
    (h : ∀ before op answer after, events = before ++ ⟨op, answer⟩ :: after →
      admits (past ++ before) op answer) : (recording allowed admits).Admits past events := by
  induction events generalizing past with
  | nil => trivial
  | cons event rest ih =>
      obtain ⟨op, answer⟩ := event
      refine ⟨?_, ih fun before other value after hsplit => ?_⟩
      · have hfirst := h [] op answer rest rfl
        rw [List.append_nil] at hfirst
        exact hfirst
      · have hlater := h (⟨op, answer⟩ :: before) other value after (by rw [hsplit]; rfl)
        change admits (past ++ [⟨op, answer⟩] ++ before) other value
        rw [List.append_assoc]
        exact hlater

end recording

end Monitor

end QuantumPlatform.Process
