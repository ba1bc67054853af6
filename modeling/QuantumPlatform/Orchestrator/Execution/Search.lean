import QuantumPlatform.Core.Satisfiability
import QuantumPlatform.Orchestrator.Execution

namespace QuantumPlatform.Orchestrator

open Process Python QuantumPlatform.Core BooleanSearchProblem

-- The environment in which Python evaluates the expressions.
def Env.evaluating (env : Env) (unicode : Unicode)
    (elsewhere : String → Dict String Bool → Except Ordinary Bool) : Env :=
  { env with externals :=
    { env.externals with evalBooleanExpression := evalBooleanExpression unicode elsewhere } }

-- The note of a result, if there is one.
def noteOf : Json → Option Json
  | .obj fields => findField fields "note"
  | _ => none

def unsatisfiable : Json := .str "no satisfying assignment exists -- nothing to search for"

variable {env : Env} {variableNames : List String} {expression : String} {shots : Json}
  {solutions : List String}

section search

variable (hsolutions : (BooleanSearchProblem.mk variableNames expression).countSolutions
  (fun text assignment => ofOrdinary (env.externals.evalBooleanExpression text assignment)) =
    .ok solutions)

include hsolutions

-- Without a solution nothing is submitted.
theorem runSatGrover_nil (hempty : solutions = []) :
    ∃ result, noteOf result = some unsatisfiable ∧
      runSatGrover env variableNames expression shots = pure result := by
  subst hempty
  have hresult : runSatGrover env variableNames expression shots = pure (.obj
      [("expression", .str expression), ("solutions", .arr []), ("counts", .null),
        ("note", unsatisfiable)]) := by
    simp only [runSatGrover, hsolutions]
    rfl
  exact ⟨_, rfl, hresult⟩

-- With one, no result has a note.
theorem runSatGrover_noteless (hne : solutions ≠ []) {events : List (Event sig)} {result : Json}
    (hreturns : (runSatGrover env variableNames expression shots).run.Returns events (.ok result)) :
    noteOf result = none := by
  have hiterations : ∃ iterations, iterations ≠ 0 ∧ (if solutions = [] then .ok 0 else
      optimalIterations (BooleanSearchProblem.mk variableNames expression).numQubits
        solutions.length) = (.ok iterations : Except Exc ℕ) := by
    have hlength : solutions.length ≠ 0 := fun h => hne (List.length_eq_zero_iff.mp h)
    rw [if_neg hne]
    unfold optimalIterations
    rw [if_neg hlength]
    exact ⟨_, by omega, rfl⟩
  obtain ⟨iterations, hpos, hiterations⟩ := hiterations
  simp only [runSatGrover, hsolutions, Py.ofExcept_ok, pure_bind, hiterations, if_neg hpos] at hreturns
  obtain ⟨_, _, hreturns⟩ := Py.returns_ok hreturns
  obtain ⟨_, _, hreturns⟩ := Py.returns_ok hreturns
  obtain ⟨_, _, hreturns⟩ := Py.returns_ok hreturns
  obtain ⟨-, hresult⟩ := (Program.returns_ret _ _ _).mp hreturns
  obtain rfl := Except.ok.inj hresult
  rfl

end search

-- The classical check of an expression is exact: one assignment, all of them, and the
-- search that rests on them.
theorem sat_check (unicode : Unicode)
    (elsewhere : String → Dict String Bool → Except Ordinary Bool) (variableNames : List String)
    (hdistinct : variableNames.Nodup) (tree : Expression)
    (hnames : ∀ name ∈ tree.names, name ∈ variableNames) (expression : String)
    (hwritten : Written unicode tree expression) :
    (∀ assignment : Dict String Bool, (∀ name ∈ variableNames, name ∈ assignment.keys) →
      evalBooleanExpression unicode elsewhere expression assignment =
          .ok (tree.value fun name => assignment.get name false) ∧
        ∀ sub ∈ tree.subexpressions, evaluate assignment sub =
          .ok (.bit (if sub.value fun name => assignment.get name false then 1 else 0))) ∧
    (∃ solutions, (BooleanSearchProblem.mk variableNames expression).countSolutions
        (fun text assignment => ofOrdinary (evalBooleanExpression unicode elsewhere text assignment)) =
          .ok solutions ∧
      solutions.Nodup ∧
      (∀ assignment, tree.value assignment = true ↔
        ∃ text ∈ solutions, Encodes variableNames assignment text) ∧
      ∀ text ∈ solutions, ∃ assignment, Encodes variableNames assignment text) ∧
    ∀ (env : Env) (shots : Json),
      ((∀ assignment, tree.value assignment = false) → ∃ result,
        noteOf result = some unsatisfiable ∧
          runSatGrover (env.evaluating unicode elsewhere) variableNames expression shots =
            pure result) ∧
      ∀ events result,
        (runSatGrover (env.evaluating unicode elsewhere) variableNames expression shots).run.Returns
          events (.ok result) →
        (noteOf result = some unsatisfiable ↔ ∀ assignment, tree.value assignment = false) := by
  have heval : ∀ assignment : Dict String Bool, (∀ name ∈ variableNames, name ∈ assignment.keys) →
      evalBooleanExpression unicode elsewhere expression assignment =
        .ok (tree.value fun name => assignment.get name false) := by
    intro assignment hkeys
    exact evalBooleanExpression_written hwritten fun name hmem => hkeys name (hnames name hmem)
  have hrow : ∀ bits, bits.length = variableNames.length →
      ofOrdinary (evalBooleanExpression unicode elsewhere expression (assigned variableNames bits)) =
        .ok (tree.value fun name => (assigned variableNames bits).get name false) := by
    intro bits hlength
    rw [heval _ fun name hmem => by rwa [keys_assigned hdistinct hlength]]
    rfl
  have hsolutions := @countSolutions_eq variableNames tree
    (fun text assignment => ofOrdinary (evalBooleanExpression unicode elsewhere text assignment))
    expression hrow
  have hempty := solutions_eq_nil_iff hdistinct hnames
  refine ⟨fun assignment hkeys => ⟨heval assignment hkeys, fun sub hsub => ?_⟩,
    ⟨_, hsolutions, nodup_solutions, mem_solutions hdistinct hnames,
      fun text hmem => encodes_of_mem hdistinct hmem⟩, fun env shots => ⟨fun hnone => ?_, ?_⟩⟩
  · exact evaluate_eq fun name hmem => hkeys name (hnames name (names_of_subexpression hsub name hmem))
  · exact @runSatGrover_nil (env.evaluating unicode elsewhere) _ _ shots _ hsolutions
      (hempty.mpr hnone)
  · intro events result hreturns
    constructor
    · intro hnote
      by_contra hsome
      have hne := mt hempty.mp hsome
      have hnoteless := @runSatGrover_noteless (env.evaluating unicode elsewhere) _ _ shots _
        hsolutions hne events result hreturns
      rw [hnoteless] at hnote
      cases hnote
    · intro hnone
      obtain ⟨found, hnote, hpure⟩ := @runSatGrover_nil (env.evaluating unicode elsewhere) _ _ shots _
        hsolutions (hempty.mpr hnone)
      rw [hpure] at hreturns
      obtain ⟨-, hresult⟩ := (Program.returns_ret _ _ _).mp hreturns
      rw [Except.ok.inj hresult]
      exact hnote

-- `x & ~x`, with a blank here and there: no assignment is a solution, and nothing is run.
theorem sat_check_contradiction :
    evalBooleanExpression ⟨fun _ => false, id⟩ (fun _ _ => .ok true) " x&~x"
      (Dict.ofList [("x", true)]) = .ok false ∧
    (BooleanSearchProblem.mk ["x"] " x&~x").countSolutions (fun text assignment => ofOrdinary
      (evalBooleanExpression ⟨fun _ => false, id⟩ (fun _ _ => .ok true) text assignment)) = .ok [] ∧
    ∃ result, noteOf result = some unsatisfiable ∧
      runSatGrover (Env.evaluating ⟨{}, default, 1⟩ ⟨fun _ => false, id⟩ fun _ _ => .ok true) ["x"]
        " x&~x" (.int 1024) = pure result := by
  let unicode : Unicode := ⟨fun _ => false, id⟩
  let contradiction : Expression := .binary .and (.atom "x") (.unary (.atom "x"))
  have hname : unicode.readName "x" = some "x" := rfl
  have hend : ∀ char ∈ ['&', '~', 'x'].head?, nameChar char = false := by
    intro char hchar
    obtain rfl : '&' = char := Option.some.inj hchar
    rfl
  have hlast : ∀ char ∈ ([] : List Char).head?, nameChar char = false :=
    fun _ hchar => nomatch hchar
  have hwritten : Written unicode contradiction " x&~x" :=
    ⟨[.atom "x", .binary .and, .unary, .atom "x"],
      .tighter (.tighter (.binary Connective.and (.tighter (.atom "x")) (.unary (.atom "x")))),
      .blank rfl (.name hname hend (.symbol rfl (.symbol rfl (.name hname hlast .nil))))⟩
  have hfalse : ∀ assignment, contradiction.value assignment = false :=
    fun assignment => Bool.and_not_self (assignment "x")
  obtain ⟨hvalues, ⟨solutions, hcounted, -, hsolutions, hencoded⟩, hsearch⟩ := sat_check unicode
    (fun _ _ => .ok true) ["x"] (List.nodup_singleton "x") contradiction (by decide) " x&~x"
    hwritten
  refine ⟨(hvalues (Dict.ofList [("x", true)]) (by decide)).1, ?_,
    (hsearch ⟨{}, default, 1⟩ (.int 1024)).1 hfalse⟩
  have hnone : solutions = [] := by
    refine List.eq_nil_iff_forall_not_mem.mpr fun text hmem => ?_
    obtain ⟨assignment, hencodes⟩ := hencoded text hmem
    have htrue := (hsolutions assignment).mpr ⟨text, hmem, hencodes⟩
    rw [hfalse] at htrue
    cases htrue
  subst hnone
  exact hcounted

end QuantumPlatform.Orchestrator
