import QuantumPlatform.Indexer.Canonical
import QuantumPlatform.Process.Program
import QuantumPlatform.Python.Dict

namespace QuantumPlatform.Indexer

open Process Python

abbrev DateTime := Int

-- The columns that an upsert sets. The vector stands as the text that pgvector reads.
structure EmbeddingColumns where
  algorithm : String
  molecule : Option String
  content : String
  embedding : String
  embeddingModel : String
deriving DecidableEq, Repr

structure EmbeddingRow extends EmbeddingColumns where
  createdAt : DateTime
  updatedAt : DateTime

-- The table experiment_embeddings, by experiment_id.
abbrev EmbeddingTable := Dict String EmbeddingRow

-- INSERT ... ON CONFLICT (experiment_id) DO UPDATE: created_at keeps the default it got
-- when the row was inserted.
def upsert (table : EmbeddingTable) (experimentId : String) (columns : EmbeddingColumns)
    (now : DateTime) : EmbeddingTable :=
  table.set experimentId
    { columns with
      createdAt := ((table.get? experimentId).map EmbeddingRow.createdAt).getD now
      updatedAt := now }

-- The awaits of the loop body: the model in its thread, the database, and the broker.
inductive Effect where
  | encode (content : String)
  | execute (experimentId : String) (columns : EmbeddingColumns)
  | commit

def Effect.Ans : Effect → Type
  | .encode _ => Except Exc (List ℚ)
  | .execute _ _ => Outcome
  | .commit => Outcome

abbrev sig : Signature := ⟨Effect, Effect.Ans⟩

variable (env : Env)

def vectorLiteral (values : List ℚ) : String :=
  "[" ++ ",".intercalate (values.map env.format) ++ "]"

def dataError : Exc := ⟨.named "DataError", "invalid input for query argument"⟩

-- A parameter for a text column; NULL is for a column that may be NULL.
def textParameter : Json → Except Exc String
  | .str text => .ok text
  | _ => .error dataError

def nullableParameter : Json → Except Exc (Option String)
  | .null => .ok none
  | value => some <$> textParameter value

-- The parameters of the statement, and the key of its row.
def statement (experiment : Json) (content : String) (embedding : List ℚ) (modelName : String) :
    Except Exc (String × EmbeddingColumns) := do
  let parameters ← orElse (← get experiment "parameters") (.ok (.obj []))
  let result ← orElse (← get experiment "result") (.ok (.obj []))
  let molecule ← orElse (← get parameters "molecule") (get result "molecule")
  let experimentId ← subscript experiment "id"
  let algorithm ← subscript experiment "algorithm"
  return (← textParameter experimentId,
    { algorithm := ← textParameter algorithm
      molecule := ← nullableParameter molecule
      content := content
      embedding := vectorLiteral env embedding
      embeddingModel := modelName })

def upsertEmbedding (experiment : Json) (content : String) (embedding : List ℚ)
    (modelName : String) : Py sig Unit := do
  let (experimentId, columns) ← Py.ofExcept (statement env experiment content embedding modelName)
  Py.ofOutcome (← @Py.await sig (.execute experimentId columns))

end QuantumPlatform.Indexer
