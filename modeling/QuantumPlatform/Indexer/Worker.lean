import QuantumPlatform.Indexer.Repository
import QuantumPlatform.Process.Run

namespace QuantumPlatform.Indexer

open Process Python

variable (env : Env)

-- The body of the loop: index one message, then commit its offset.
def indexMessage (modelName : String) (body : Body) : Py sig Unit := do
  let experiment ← Py.ofExcept (loads body)
  let content ← Py.ofExcept (canonicalExperimentText env experiment)
  let embedding ← Py.ofExcept (← @Py.await sig (.encode content))
  upsertEmbedding env experiment content embedding modelName
  Py.ofOutcome (← @Py.await sig .commit)

-- A process that consumes: the model it was started with, the offset of the next message,
-- and what is left to do for the current one.
structure Session where
  modelName : String
  position : ℕ
  rest : Program sig (Except Exc Unit)

-- The topic, the consumer group's offset, the table and the process, if there is one.
structure Index where
  log : List Body := []
  committed : ℕ := 0
  table : EmbeddingTable := ∅
  session : Option Session := none

-- What an answered await has done outside of the process. A commit stores the position.
def Index.after (index : Index) (position : ℕ) (now : DateTime) :
    (op : Effect) → op.Ans → Index
  | .encode _, _ => index
  | .execute experimentId columns, outcome =>
      if Outcome.stored outcome then
        { index with table := upsert index.table experimentId columns now }
      else index
  | .commit, outcome =>
      if Outcome.stored outcome then { index with committed := position } else index

inductive Label where
  | produce (body : Body)
  | start (modelName : String)
  | deliver
  | answer (position : ℕ) (event : Event sig) (now : DateTime)
  | exit
  | crash

-- The embedding model answers with the vector of its content, if it answers.
def Answers (modelName : String) (event : Event sig) : Prop :=
  ∀ content embedding, event = ⟨.encode content, .ok embedding⟩ →
    embedding = env.encode modelName content

-- The producer, the process and the crashes, in any order. A process starts where the group
-- has committed, an exception ends it, and a crash may come at every await.
inductive Step (index : Index) : Label → Index → Prop where
  | produce (body : Body) : Step index (.produce body) { index with log := index.log ++ [body] }
  | start (modelName : String) (h : index.session = none) :
      Step index (.start modelName)
        { index with session := some ⟨modelName, index.committed, .ret (.ok ())⟩ }
  | deliver {modelName : String} {position : ℕ} {body : Body}
      (h : index.session = some ⟨modelName, position, .ret (.ok ())⟩)
      (hbody : index.log[position]? = some body) :
      Step index .deliver
        { index with
          session := some ⟨modelName, position + 1, (indexMessage env modelName body).run⟩ }
  | answer {modelName : String} {position : ℕ} {op : Effect}
      {next : op.Ans → Program sig (Except Exc Unit)} (answer : op.Ans) (now : DateTime)
      (h : index.session = some ⟨modelName, position, .call op next⟩)
      (hanswer : Answers env modelName ⟨op, answer⟩) :
      Step index (.answer position ⟨op, answer⟩ now)
        { index.after position now op answer with
          session := some ⟨modelName, position, next answer⟩ }
  | exit {modelName : String} {position : ℕ} {exc : Exc}
      (h : index.session = some ⟨modelName, position, .ret (.error exc)⟩) :
      Step index .exit { index with session := none }
  | crash : Step index .crash { index with session := none }

-- The row that a message asks for.
def entry (modelName : String) (body : Body) : Option (String × EmbeddingColumns) :=
  (do
    let experiment ← loads body
    let content ← canonicalExperimentText env experiment
    statement env experiment content (env.encode modelName content) modelName).toOption

-- The statement for the message at an offset has been executed.
def Executed (modelName : String) (log : List Body) (labels : List Label) (offset : ℕ) : Prop :=
  ∃ body experimentId columns outcome now, log[offset]? = some body ∧
    entry env modelName body = some (experimentId, columns) ∧ Outcome.stored outcome = true ∧
    .answer (offset + 1) ⟨.execute experimentId columns, outcome⟩ now ∈ labels

-- Every message upserted once, in the order of the log, each at its own time.
def upsertAll (modelName : String) (times : ℕ → DateTime) (log : List Body) : EmbeddingTable :=
  log.zipIdx.foldl (fun table message => match entry env modelName message.1 with
    | some (experimentId, columns) => upsert table experimentId columns (times message.2)
    | none => table) ∅

end QuantumPlatform.Indexer
