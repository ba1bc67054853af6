import QuantumPlatform.Process.Monitor
import Mathlib.Control.Monad.Basic

namespace QuantumPlatform.Python

open Process

-- `named` is any other subclass of Exception, `base` any other class that
-- derives from BaseException only.
inductive ExcClass where
  | valueError
  | typeError
  | keyError
  | indexError
  | runtimeError
  | assertionError
  | cancelledError
  | named (name : String)
  | base (name : String)
deriving DecidableEq, Repr

structure Exc where
  cls : ExcClass
  message : String
deriving DecidableEq, Repr

-- Whether `except Exception` catches it. Since Python 3.8 CancelledError
-- derives from BaseException.
def ExcClass.isException : ExcClass → Bool
  | .cancelledError => false
  | .base _ => false
  | _ => true

def Exc.isException (exc : Exc) : Bool := exc.cls.isException

def Exc.valueError (message : String) : Exc := ⟨.valueError, message⟩
def Exc.typeError (message : String) : Exc := ⟨.typeError, message⟩
def Exc.keyError (message : String) : Exc := ⟨.keyError, message⟩
def Exc.indexError (message : String) : Exc := ⟨.indexError, message⟩
def Exc.runtimeError (message : String) : Exc := ⟨.runtimeError, message⟩
def Exc.assertionError (message : String) : Exc := ⟨.assertionError, message⟩
def Exc.cancelledError (message : String) : Exc := ⟨.cancelledError, message⟩

-- An exception that `except Exception` catches.
abbrev Ordinary := {exc : Exc // exc.isException = true}

-- A computation that raises nothing but subclasses of Exception.
def OnlyExceptions {α : Type} (result : Except Exc α) : Prop :=
  ∀ exc, result = .error exc → exc.isException = true

namespace OnlyExceptions

variable {α β : Type}

theorem ok (value : α) : OnlyExceptions (.ok value) := by
  intro exc h
  cases h

theorem error (exc : Exc) (hexc : exc.isException = true) :
    OnlyExceptions (.error exc : Except Exc α) := by
  intro other h
  cases h
  exact hexc

theorem bind {result : Except Exc α} {f : α → Except Exc β} (hresult : OnlyExceptions result)
    (hf : ∀ value, OnlyExceptions (f value)) : OnlyExceptions (result >>= f) := by
  cases result with
  | error exc => exact error exc (hresult exc rfl)
  | ok value => exact hf value

theorem mapM {f : α → Except Exc β} (hf : ∀ value, OnlyExceptions (f value)) (items : List α) :
    OnlyExceptions (items.mapM f) := by
  induction items with
  | nil => exact ok _
  | cons item rest ih =>
      rw [List.mapM_cons]
      exact (hf item).bind fun _ => ih.bind fun _ => ok _

theorem foldlM {f : β → α → Except Exc β} (hf : ∀ state value, OnlyExceptions (f state value))
    (items : List α) (state : β) : OnlyExceptions (items.foldlM f state) := by
  induction items generalizing state with
  | nil => exact ok _
  | cons item rest ih =>
      rw [List.foldlM_cons]
      exact (hf state item).bind fun _ => ih _

end OnlyExceptions

-- How a call to another service ends: it returns, or it raises, and then its
-- effect may have been stored there (`stored`) or not.
inductive Outcome where
  | returned
  | raised (exc : Exc) (stored : Bool)
deriving DecidableEq, Repr

def Outcome.stored : Outcome → Bool
  | .returned => true
  | .raised _ stored => stored

-- A coroutine: awaits are the operations of the program.
abbrev Py (sig : Signature) (α : Type) := ExceptT Exc (Program sig) α

namespace Py

variable {sig : Signature} {State α β : Type}

def raise (exc : Exc) : Py sig α := ExceptT.mk (.ret (.error exc))

def await (op : sig.Op) : Py sig (sig.Ans op) :=
  ExceptT.mk (.call op fun answer => .ret (.ok answer))

-- A program that reports in its value what it raised.
def lift (program : Program sig α) : Py sig α :=
  ExceptT.mk (program.bind fun value => .ret (.ok value))

def ofExcept : Except Exc α → Py sig α
  | .ok value => pure value
  | .error exc => raise exc

def ofOutcome : Outcome → Py sig Unit
  | .returned => pure ()
  | .raised exc _ => raise exc

-- `try: body except Exception as exc: handler`
def exceptException (body : Py sig α) (handler : Exc → Py sig α) : Py sig α :=
  ExceptT.mk (body.run.bind fun
    | .ok value => .ret (.ok value)
    | .error exc => if exc.isException then (handler exc).run else .ret (.error exc))

theorem run_bind (body : Py sig α) (f : α → Py sig β) :
    (body >>= f).run = body.run.bind fun
      | .ok value => (f value).run
      | .error exc => .ret (.error exc) := by
  change Program.bind _ _ = Program.bind _ _
  congr 1
  funext result
  cases result <;> rfl

theorem run_lift_bind (program : Program sig α) (f : α → Py sig β) :
    (lift program >>= f).run = program.bind fun value => (f value).run := by
  rw [run_bind]
  exact Program.bind_assoc _ _ _

theorem ofExcept_ok (value : α) : (ofExcept (.ok value) : Py sig α) = pure value := rfl

theorem run_exceptException (body : Py sig α) (handler : Exc → Py sig α) :
    (exceptException body handler).run = body.run.bind fun
      | .ok value => .ret (.ok value)
      | .error exc => if exc.isException then (handler exc).run else .ret (.error exc) := rfl

-- A run of a sequence: the first part raises, or it returns and the rest runs.
theorem returns_bind (body : Py sig α) (f : α → Py sig β) (events : List (Event sig))
    (result : Except Exc β) :
    (body >>= f).run.Returns events result ↔
      (∃ exc, result = .error exc ∧ body.run.Returns events (.error exc)) ∨
      ∃ value first second, events = first ++ second ∧
        body.run.Returns first (.ok value) ∧ (f value).run.Returns second result := by
  rw [run_bind, Program.returns_bind]
  constructor
  · rintro ⟨first, value, second, rfl, hf, hs⟩
    cases value with
    | ok value => exact .inr ⟨value, first, second, rfl, hf, hs⟩
    | error exc =>
        obtain ⟨rfl, rfl⟩ := (Program.returns_ret _ _ _).mp hs
        exact .inl ⟨exc, rfl, by simpa using hf⟩
  · rintro (⟨exc, rfl, h⟩ | ⟨value, first, second, rfl, hf, hs⟩)
    · exact ⟨events, .error exc, [], by simp, h, by simp⟩
    · exact ⟨first, .ok value, second, rfl, hf, hs⟩

-- What a sequence returns is returned by its second part.
theorem returns_ok {body : Py sig α} {f : α → Py sig β} {events : List (Event sig)} {result : β}
    (h : (body >>= f).run.Returns events (.ok result)) :
    ∃ value rest, (f value).run.Returns rest (.ok result) := by
  rcases (returns_bind body f _ _).mp h with ⟨exc, hraised, -⟩ | ⟨value, _, rest, -, -, hrest⟩
  · cases hraised
  · exact ⟨value, rest, hrest⟩

-- What a sequence returns, its first part has returned before.
theorem returns_parts {body : Py sig α} {f : α → Py sig β} {events : List (Event sig)} {result : β}
    (h : (body >>= f).run.Returns events (.ok result)) :
    ∃ value first second, events = first ++ second ∧ body.run.Returns first (.ok value) ∧
      (f value).run.Returns second (.ok result) := by
  rcases (returns_bind body f _ _).mp h with ⟨exc, hraised, -⟩ | hparts
  · cases hraised
  · exact hparts

-- A computed value takes no events.
theorem returns_ofExcept {computed : Except Exc α} {f : α → Py sig β} {events : List (Event sig)}
    {result : β} (h : (ofExcept computed >>= f).run.Returns events (.ok result)) :
    ∃ value, computed = .ok value ∧ (f value).run.Returns events (.ok result) := by
  cases computed with
  | ok value => exact ⟨value, rfl, h⟩
  | error exc =>
      obtain ⟨-, hraised⟩ := (Program.returns_ret _ _ _).mp h
      cases hraised

theorem returns_then {body : Py sig α} {f : α → Py sig β} {first second : List (Event sig)}
    {value : α} {result : Except Exc β} (hfirst : body.run.Returns first (.ok value))
    (hsecond : (f value).run.Returns second result) :
    (body >>= f).run.Returns (first ++ second) result :=
  (returns_bind body f _ result).mpr (.inr ⟨value, first, second, rfl, hfirst, hsecond⟩)

theorem returns_raised {body : Py sig α} {f : α → Py sig β} {events : List (Event sig)} {exc : Exc}
    (h : body.run.Returns events (.error exc)) : (body >>= f).run.Returns events (.error exc) :=
  (returns_bind body f _ _).mpr (.inl ⟨exc, rfl, h⟩)

theorem returns_await {op : sig.Op} {f : sig.Ans op → Py sig β} (answer : sig.Ans op)
    {events : List (Event sig)} {result : Except Exc β}
    (h : (f answer).run.Returns events result) :
    (await op >>= f).run.Returns (⟨op, answer⟩ :: events) result :=
  .step op _ answer h

-- The first part of a sequence has come to an operation.
theorem trace_bind {body : Py sig α} {f : α → Py sig β} {events : List (Event sig)} {op : sig.Op}
    (h : ∃ next, body.run.Trace events (.call op next)) :
    ∃ next, (body >>= f).run.Trace events (.call op next) := by
  obtain ⟨next, h⟩ := h
  rw [run_bind]
  exact ⟨_, h.bind _⟩

-- How far a sequence has come: its first part is at an operation, or has raised,
-- or has returned and the rest has come this far.
theorem trace_of_bind {body : Py sig α} {f : α → Py sig β} {events : List (Event sig)}
    {rest : Program sig (Except Exc β)} (h : (body >>= f).run.Trace events rest) :
    (∃ op left next, body.run.Trace events (.call op left) ∧ rest = .call op next) ∨
      (∃ exc, body.run.Returns events (.error exc) ∧ rest = .ret (.error exc)) ∨
      ∃ first value second, events = first ++ second ∧ body.run.Returns first (.ok value) ∧
        (f value).run.Trace second rest := by
  rw [run_bind] at h
  rcases h.of_bind with ⟨op, left, hleft, hrest⟩ | ⟨first, result, second, rfl, hfirst, hsecond⟩
  · exact .inl ⟨op, left, _, hleft, hrest⟩
  · cases result with
    | ok value => exact .inr (.inr ⟨first, value, second, rfl, hfirst, hsecond⟩)
    | error exc =>
        cases hsecond
        rw [List.append_nil]
        exact .inr (.inl ⟨exc, hfirst, rfl⟩)

theorem trace_await {first op : sig.Op} {f : sig.Ans first → Py sig β} (answer : sig.Ans first)
    {events : List (Event sig)} (h : ∃ next, (f answer).run.Trace events (.call op next)) :
    ∃ next, (await first >>= f).run.Trace (⟨first, answer⟩ :: events) (.call op next) := by
  obtain ⟨next, h⟩ := h
  exact ⟨next, .step first _ answer h⟩

theorem trace_exceptException {body : Py sig α} {handler : Exc → Py sig α}
    {events : List (Event sig)} {op : sig.Op}
    (h : ∃ next, body.run.Trace events (.call op next)) :
    ∃ next, (exceptException body handler).run.Trace events (.call op next) := by
  obtain ⟨next, h⟩ := h
  exact ⟨_, h.bind _⟩

-- What the handler does not see: a normal end, and what is no Exception.
theorem returns_uncaught {body : Py sig α} {handler : Exc → Py sig α}
    {events : List (Event sig)} {result : Except Exc α} (h : body.run.Returns events result)
    (huncaught : ∀ exc, result = .error exc → exc.isException = false) :
    (exceptException body handler).run.Returns events result := by
  rw [run_exceptException]
  refine (Program.returns_bind _ _ _ _).mpr ⟨events, result, [], (List.append_nil _).symm, h, ?_⟩
  cases result with
  | ok value => exact .stop _
  | error exc =>
      simp only [huncaught exc rfl, Bool.false_eq_true, if_false]
      exact .stop _

section exec

variable {σ : Type} (answer : (op : sig.Op) → σ → sig.Ans op × σ) (state : σ)

-- Against a deterministic environment a raised exception skips the rest.
theorem exec_bind (body : Py sig α) (f : α → Py sig β) :
    (body >>= f).run.exec answer state =
      match body.run.exec answer state with
      | (.ok value, later) => (f value).run.exec answer later
      | (.error exc, later) => (.error exc, later) := by
  rw [run_bind, Program.exec_bind]
  rcases body.run.exec answer state with ⟨exc | value, later⟩ <;> rfl

@[simp] theorem exec_ofExcept (result : Except Exc α) :
    (ofExcept result : Py sig α).run.exec answer state = (result, state) := by
  cases result <;> rfl

end exec

theorem only_bind {allowed : sig.Op → Prop} {body : Py sig α} {f : α → Py sig β}
    (hb : body.run.Only allowed) (hf : ∀ value, (f value).run.Only allowed) :
    (body >>= f).run.Only allowed := by
  rw [run_bind]
  refine hb.bind fun result => ?_
  cases result with
  | ok value => exact hf value
  | error exc => trivial

theorem only_exceptException {allowed : sig.Op → Prop} {body : Py sig α}
    {handler : Exc → Py sig α} (hbody : body.run.Only allowed)
    (hhandler : ∀ exc, (handler exc).run.Only allowed) :
    (exceptException body handler).run.Only allowed := by
  rw [run_exceptException]
  refine hbody.bind fun result => ?_
  cases result with
  | ok value => trivial
  | error exc =>
      simp only
      split_ifs
      · exact hhandler exc
      · trivial

theorem obeys_bind {monitor : Monitor sig State} {post : State → Except Exc α → Prop}
    {final : State → Except Exc β → Prop} {state : State} {body : Py sig α} {f : α → Py sig β}
    (hb : monitor.Obeys post state body.run)
    (hok : ∀ current value, post current (.ok value) → monitor.Obeys final current (f value).run)
    (herr : ∀ current exc, post current (.error exc) → final current (.error exc)) :
    monitor.Obeys final state (body >>= f).run := by
  rw [run_bind]
  refine hb.bind fun current result hpost => ?_
  cases result with
  | ok value => exact hok current value hpost
  | error exc => exact herr current exc hpost

-- The handler starts where the body raised an Exception, and anything else gets
-- through.
theorem obeys_exceptException {monitor : Monitor sig State} {post final : State → Except Exc α → Prop}
    {state : State} {body : Py sig α} {handler : Exc → Py sig α}
    (hbody : monitor.Obeys post state body.run)
    (hok : ∀ current value, post current (.ok value) → final current (.ok value))
    (hcaught : ∀ current (exc : Exc), post current (.error exc) → exc.isException = true →
      monitor.Obeys final current (handler exc).run)
    (hescaped : ∀ current (exc : Exc), post current (.error exc) → exc.isException = false →
      final current (.error exc)) :
    monitor.Obeys final state (exceptException body handler).run := by
  rw [run_exceptException]
  refine hbody.bind fun current result hpost => ?_
  cases result with
  | ok value => exact hok current value hpost
  | error exc =>
      by_cases hexc : exc.isException = true
      · simp only [if_pos hexc]
        exact hcaught current exc hpost hexc
      · simp only [if_neg hexc]
        exact hescaped current exc hpost (by simpa using hexc)

-- `except Exception: pass`
theorem obeys_suppressed {monitor : Monitor sig State} {inv : State → Prop} {state : State}
    {body : Py sig Unit} (hbody : monitor.Obeys (fun current _ => inv current) state body.run) :
    monitor.Obeys (fun current _ => inv current) state
      (exceptException body fun _ => pure ()).run :=
  obeys_exceptException hbody (fun _ _ hcurrent => hcurrent) (fun _ _ hcurrent _ => hcurrent)
    fun _ _ hcurrent _ => hcurrent

end Py

end QuantumPlatform.Python
