import QuantumPlatform.Python.Exception

namespace QuantumPlatform.Python.Py

open Process

variable {sig : Signature} {α : Type}

-- `try: body finally: cleanup`. What the cleanup raises takes the place of what the body did.
def withFinally (body : Py sig α) (cleanup : Py sig Unit) : Py sig α :=
  ExceptT.mk (body.run.bind fun result => cleanup.run.bind fun
    | .ok _ => .ret result
    | .error exc => .ret (.error exc))

-- What a statement with this cleanup comes to when its body has come to `result`.
def finallyResult (result : Except Exc α) : Except Exc Unit → Except Exc α
  | .ok _ => result
  | .error exc => .error exc

theorem run_withFinally (body : Py sig α) (cleanup : Py sig Unit) :
    (withFinally body cleanup).run = body.run.bind fun result =>
      cleanup.run.bind fun after => .ret (finallyResult result after) := by
  unfold withFinally
  refine congrArg body.run.bind (funext fun result => ?_)
  refine congrArg cleanup.run.bind (funext fun after => ?_)
  cases after with
  | ok done => rfl
  | error exc => rfl

-- However the body ends, the cleanup runs after it.
theorem returns_withFinally (body : Py sig α) (cleanup : Py sig Unit) (events : List (Event sig))
    (final : Except Exc α) :
    (withFinally body cleanup).run.Returns events final ↔
      ∃ first second result after, events = first ++ second ∧ body.run.Returns first result ∧
        cleanup.run.Returns second after ∧ final = finallyResult result after := by
  rw [run_withFinally, Program.returns_bind]
  constructor
  · rintro ⟨first, result, second, rfl, hfirst, hsecond⟩
    obtain ⟨events, after, rest, rfl, hcleanup, hrest⟩ := (Program.returns_bind _ _ _ _).mp hsecond
    obtain ⟨rfl, rfl⟩ := (Program.returns_ret _ _ _).mp hrest
    exact ⟨first, events, result, after, by simp, hfirst, hcleanup, rfl⟩
  · rintro ⟨first, second, result, after, rfl, hfirst, hcleanup, rfl⟩
    refine ⟨first, result, second, rfl, hfirst, ?_⟩
    refine (Program.returns_bind _ _ _ _).mpr ⟨second, after, [], by simp, hcleanup, ?_⟩
    exact (Program.returns_ret _ _ _).mpr ⟨rfl, rfl⟩

end QuantumPlatform.Python.Py
