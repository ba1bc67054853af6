import QuantumPlatform.Api.Schemas
import QuantumPlatform.Sql.Listing
import Mathlib.Data.String.Basic
import Mathlib.Data.Prod.Lex

namespace QuantumPlatform.Api

open Python Sql

section values

-- The annotation `dict | None` of a field.
def isDictOrNone : Json → Bool
  | .null => true
  | .obj _ => true
  | _ => false

def isStrOrNone : Json → Bool
  | .null => true
  | .str _ => true
  | _ => false

-- What pydantic checks of the fields that are kept as JSON values here.
structure ExperimentResponse.Valid (experiment : ExperimentResponse) : Prop where
  parameters : isDictOrNone experiment.parameters = true
  result : isDictOrNone experiment.result = true
  error : isStrOrNone experiment.error = true

-- An ExperimentResponse whose fields are of their annotated types.
abbrev Experiment := {experiment : ExperimentResponse // experiment.Valid}

-- An entry of stats().
structure ExperimentCount where
  algorithm : String
  status : String
  count : ℕ
deriving DecidableEq

-- (algorithm, status), compared as a tuple of strings.
def ExperimentCount.group (entry : ExperimentCount) : String ×ₗ String :=
  toLex (entry.algorithm, entry.status)

-- A row of the grouped query as an entry.
def ExperimentCount.ofGroup (row : (String ×ₗ String) × ℕ) : ExperimentCount :=
  ⟨(ofLex row.1).1, (ofLex row.1).2, row.2⟩

-- The filters of list_all, on experiments and on rows: None keeps everything.
def keeping {α : Type} (wanted : Option String) (field : α → String) (found : List α) : List α :=
  match wanted with
  | some value => found.filter fun e => decide (field e = value)
  | none => found

-- submitted_at ascending, or descending.
def inOrder : Bool → DateTime → DateTime → Prop
  | true, first, second => second ≤ first
  | false, first, second => first ≤ second

instance : ∀ sortDesc first second, Decidable (inOrder sortDesc first second)
  | true, first, second => inferInstanceAs (Decidable (second ≤ first))
  | false, first, second => inferInstanceAs (Decidable (first ≤ second))

end values

namespace InMemoryExperimentStore

def saveAll (experiments : List ExperimentResponse) : InMemoryExperimentStore :=
  experiments.foldl save ∅

-- `sorted` keeps the order of equal keys, also when it sorts in reverse.
def listAll (store : InMemoryExperimentStore) (algorithm status : Option String)
    (sortDesc : Bool) : List ExperimentResponse :=
  let experiments := store.data.values
  let experiments := keeping algorithm (fun e => e.algorithm.value) experiments
  let experiments := keeping status (fun e => e.status.value) experiments
  experiments.mergeSort fun first second =>
    decide (inOrder sortDesc first.submittedAt second.submittedAt)

-- An item of `counts` as the tuple that `sorted` compares.
def itemKey (item : (Algorithm × ExperimentStatus) × ℕ) : (String ×ₗ String) ×ₗ ℕ :=
  toLex (toLex (item.1.1.value, item.1.2.value), item.2)

def stats (store : InMemoryExperimentStore) : List ExperimentCount :=
  let counts := store.data.values.foldl
    (fun (counts : Dict (Algorithm × ExperimentStatus) ℕ) e =>
      counts.set (e.algorithm, e.status) (counts.get (e.algorithm, e.status) 0 + 1)) ∅
  (counts.items.mergeSort fun first second => decide (itemKey first ≤ itemKey second)).map
    fun item => ⟨item.1.1.value, item.1.2.value, item.2⟩

end InMemoryExperimentStore

-- The table experiments.
structure ExperimentRow where
  id : String
  algorithm : String
  status : String
  submittedAt : DateTime
  completedAt : Option DateTime
  parameters : Json
  result : Json
  error : Option String

section rows

def dataError : Exc := ⟨.named "DataError", "invalid input for query argument"⟩

def validationError : Exc := ⟨.named "ValidationError", "validation error for ExperimentResponse"⟩

-- The parameter of a text column that may be NULL.
def textParameter : Json → Except Exc (Option String)
  | .null => .ok none
  | .str text => .ok (some text)
  | _ => .error dataError

-- The dict `values` of save, as the database takes it. JSONB columns take any JSON value
-- and give it back.
def ExperimentRow.ofResponse (experiment : ExperimentResponse) : Except Exc ExperimentRow := do
  return {
    id := experiment.id
    algorithm := experiment.algorithm.value
    status := experiment.status.value
    submittedAt := experiment.submittedAt
    parameters := experiment.parameters
    completedAt := experiment.completedAt
    result := experiment.result
    error := ← textParameter experiment.error }

-- The member of an enumeration with a value.
def member {α : Type} (members : List α) (value : α → String) (text : String) : Except Exc α :=
  match members.find? fun found => decide (value found = text) with
  | some found => .ok found
  | none => .error validationError

def Algorithm.ofValue : String → Except Exc Algorithm :=
  member [.grover, .satGrover, .qpe, .vqe] Algorithm.value

def ExperimentStatus.ofValue : String → Except Exc ExperimentStatus :=
  member [.queued, .waitingForCalibration, .completed, .failed] ExperimentStatus.value

def dictOrNone (value : Json) : Except Exc Json :=
  if isDictOrNone value then .ok value else .error validationError

-- _row_to_response
def rowToResponse (row : ExperimentRow) : Except Exc ExperimentResponse := do
  return {
    id := row.id
    algorithm := ← Algorithm.ofValue row.algorithm
    status := ← ExperimentStatus.ofValue row.status
    submittedAt := row.submittedAt
    parameters := ← dictOrNone row.parameters
    completedAt := row.completedAt
    result := ← dictOrNone row.result
    error := row.error.elim .null .str }

-- The columns of GROUP BY algorithm, status.
def ExperimentRow.group (row : ExperimentRow) : String ×ₗ String :=
  toLex (row.algorithm, row.status)

end rows

structure PostgresExperimentStore where
  table : Dict String ExperimentRow
  keyed : ∀ experimentId row, table.get? experimentId = some row → row.id = experimentId

namespace PostgresExperimentStore

instance : EmptyCollection PostgresExperimentStore :=
  ⟨∅, by simp⟩

-- INSERT ... ON CONFLICT (id) DO UPDATE SET every other column.
def upserted (table : Dict String ExperimentRow) (values : ExperimentRow) : ExperimentRow :=
  match table.get? values.id with
  | some existing => { values with id := existing.id }
  | none => values

theorem upserted_eq (store : PostgresExperimentStore) (values : ExperimentRow) :
    upserted store.table values = values := by
  unfold upserted
  cases hfound : store.table.get? values.id with
  | none => rfl
  | some existing =>
      exact congrArg (fun id => { values with id := id }) (store.keyed values.id existing hfound)

theorem upsert_keyed (store : PostgresExperimentStore) (values : ExperimentRow)
    (experimentId : String) (row : ExperimentRow)
    (hget : (store.table.set values.id (upserted store.table values)).get? experimentId =
      some row) : row.id = experimentId := by
  rw [upserted_eq, Dict.get?_set] at hget
  by_cases hid : experimentId = values.id
  · rw [if_pos hid, Option.some_inj] at hget
    rw [← hget, hid]
  · rw [if_neg hid] at hget
    exact store.keyed experimentId row hget

def upsert (store : PostgresExperimentStore) (values : ExperimentRow) : PostgresExperimentStore :=
  ⟨store.table.set values.id (upserted store.table values), store.upsert_keyed values⟩

def save (store : PostgresExperimentStore) (experiment : ExperimentResponse) :
    Except Exc PostgresExperimentStore := do
  return store.upsert (← ExperimentRow.ofResponse experiment)

def saveAll (experiments : List ExperimentResponse) : Except Exc PostgresExperimentStore :=
  experiments.foldlM save ∅

def get (store : PostgresExperimentStore) (experimentId : String) :
    Except Exc (Option ExperimentResponse) :=
  match store.table.get? experimentId with
  | some row => some <$> rowToResponse row
  | none => .ok none

-- What list_all may return: the rows of equal submitted_at come in any order.
def ListAll (store : PostgresExperimentStore) (algorithm status : Option String)
    (sortDesc : Bool) (answer : Except Exc (List ExperimentResponse)) : Prop :=
  ∃ rows, Ordered (fun first second => inOrder sortDesc first.submittedAt second.submittedAt)
      (keeping status ExperimentRow.status (keeping algorithm ExperimentRow.algorithm
        store.table.values)) rows ∧
    answer = rows.mapM rowToResponse

-- What stats may return.
def Stats (store : PostgresExperimentStore) (answer : List ExperimentCount) : Prop :=
  ∃ groups ordered, Grouped (store.table.values.map ExperimentRow.group) groups ∧
    Ordered (fun first second => first.1 ≤ second.1) groups ordered ∧
      answer = ordered.map ExperimentCount.ofGroup

end PostgresExperimentStore

section specification

variable {algorithm status : Option String}

-- The abstract map: every experiment as it was saved last.
def latest (experiments : List ExperimentResponse) (experimentId : String) :
    Option ExperimentResponse :=
  experiments.reverse.find? fun experiment => decide (experiment.id = experimentId)

-- The filters of list_all on an experiment.
def Matches (algorithm status : Option String) (experiment : ExperimentResponse) : Prop :=
  (∀ wanted ∈ algorithm, experiment.algorithm.value = wanted) ∧
    ∀ wanted ∈ status, experiment.status.value = wanted

instance : DecidablePred (Matches algorithm status) := fun experiment =>
  inferInstanceAs (Decidable ((∀ wanted ∈ algorithm, experiment.algorithm.value = wanted) ∧
    ∀ wanted ∈ status, experiment.status.value = wanted))

-- A list of the latest versions that match, each once, by submitted_at.
def Lists (experiments : List ExperimentResponse) (algorithm status : Option String)
    (sortDesc : Bool) : List ExperimentResponse → Prop :=
  Listing (latest experiments) ExperimentResponse.id (Matches algorithm status)
    fun first second => inOrder sortDesc first.submittedAt second.submittedAt

-- One entry for each pair that some latest version has, with as many as are listed for it,
-- in the order of the pairs.
structure Counts (experiments : List ExperimentResponse) (stats : List ExperimentCount) :
    Prop where
  sorted : stats.Pairwise fun first second => first.group < second.group
  nonempty_iff : ∀ algorithm status, (∃ count, ⟨algorithm, status, count⟩ ∈ stats) ↔
    ∃ experiment, latest experiments experiment.id = some experiment ∧
      Matches (some algorithm) (some status) experiment
  count : ∀ entry ∈ stats, ∀ sortDesc listed,
    Lists experiments (some entry.algorithm) (some entry.status) sortDesc listed →
      entry.count = listed.length

end specification

end QuantumPlatform.Api
