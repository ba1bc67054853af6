import QuantumPlatform.Indexer.Repository
import QuantumPlatform.Sql.Select

namespace QuantumPlatform.Api

open Indexer Sql

structure SimilarRequest where
  experimentId : String
  limit : ℕ := 10
  sameAlgorithm : Bool := true
  limit_bounds : 1 ≤ limit ∧ limit ≤ 50

structure SimilarExperiment where
  experimentId : String
  algorithm : String
  molecule : Option String
  similarity : ℚ
  content : String
  similarity_bounds : -1 ≤ similarity ∧ similarity ≤ 1

-- What the handler raises: an answer without rows, or a row that is no SimilarExperiment.
inductive Refusal where
  | httpException (statusCode : ℕ) (detail : String)
  | validationError

-- A row of experiment_embeddings AS source JOIN experiment_embeddings AS candidate.
structure JoinedRow where
  source : EmbeddingRow
  candidateId : String
  candidate : EmbeddingRow

def joinCondition (request : SimilarRequest) (source candidate : String × EmbeddingRow) : Bool :=
  decide (candidate.1 ≠ source.1) &&
    (!request.sameAlgorithm || decide (candidate.2.algorithm = source.2.algorithm))

def joined (table : EmbeddingTable) (request : SimilarRequest) : List JoinedRow :=
  (table.items.filter fun source => decide (source.1 = request.experimentId)).flatMap fun source =>
    (table.items.filter (joinCondition request source)).map fun candidate =>
      ⟨source.2, candidate.1, candidate.2⟩

-- The operator <=> of pgvector, on vectors as it reads them.
variable (cosineDistance : String → String → ℚ)

def JoinedRow.distance (row : JoinedRow) : ℚ :=
  cosineDistance row.candidate.embedding row.source.embedding

-- The rows that the statement may select: ORDER BY the distance, then LIMIT.
def Selected (table : EmbeddingTable) (request : SimilarRequest) (rows : List JoinedRow) : Prop :=
  ∃ ordered, Ordered (fun a b => a.distance cosineDistance ≤ b.distance cosineDistance)
    (joined table request) ordered ∧ rows = ordered.take request.limit

-- SimilarExperiment(**row)
def JoinedRow.present (row : JoinedRow) : Except Refusal SimilarExperiment :=
  let similarity := 1 - row.distance cosineDistance
  if h : -1 ≤ similarity ∧ similarity ≤ 1 then
    .ok ⟨row.candidateId, row.candidate.algorithm, row.candidate.molecule, similarity,
      row.candidate.content, h⟩
  else .error .validationError

-- similar_experiments, with the rows that were selected.
def similarExperiments (databaseUrl : Option String) (table : EmbeddingTable)
    (request : SimilarRequest) (rows : List JoinedRow) : Except Refusal (List SimilarExperiment) :=
  if databaseUrl.getD "" = "" then
    .error (.httpException 503 "semantic search requires PostgreSQL/pgvector")
  else if rows.isEmpty && (table.get? request.experimentId).isNone then
    .error (.httpException 404 "experiment has not been indexed")
  else rows.mapM (JoinedRow.present cosineDistance)

-- The source of the request and another experiment that it may be compared with.
def Eligible (table : EmbeddingTable) (request : SimilarRequest) (row : JoinedRow) : Prop :=
  table.get? request.experimentId = some row.source ∧
    table.get? row.candidateId = some row.candidate ∧
      row.candidateId ≠ request.experimentId ∧
        (request.sameAlgorithm = true → row.candidate.algorithm = row.source.algorithm)

-- The row compares two vectors of one model.
def JoinedRow.SameModel (row : JoinedRow) : Prop :=
  row.candidate.embeddingModel = row.source.embeddingModel

instance : DecidablePred JoinedRow.SameModel := fun row =>
  inferInstanceAs (Decidable (row.candidate.embeddingModel = row.source.embeddingModel))

-- What vector-search.md asks of the rows: vectors of one model only, and of those the nearest.
structure Comparable (table : EmbeddingTable) (request : SimilarRequest)
    (rows : List JoinedRow) : Prop where
  eligible : ∀ row ∈ rows, Eligible table request row
  sameModel : ∀ row ∈ rows, row.SameModel
  once : (rows.map JoinedRow.candidateId).Nodup
  sorted : rows.Pairwise fun a b => a.distance cosineDistance ≤ b.distance cosineDistance
  length_le : rows.length ≤ request.limit
  nearest : ∀ row, Eligible table request row → row.SameModel → row ∈ rows ∨
    rows.length = request.limit ∧
      ∀ near ∈ rows, near.distance cosineDistance ≤ row.distance cosineDistance

-- Every candidate of another model is farther than `limit` candidates of the source's model.
def Separated (table : EmbeddingTable) (request : SimilarRequest) : Prop :=
  ∀ row, Eligible table request row → ¬row.SameModel →
    ∃ nearer : List JoinedRow, (nearer.map JoinedRow.candidateId).Nodup ∧
      nearer.length = request.limit ∧ ∀ other ∈ nearer, Eligible table request other ∧
        other.SameModel ∧ other.distance cosineDistance < row.distance cosineDistance

end QuantumPlatform.Api
