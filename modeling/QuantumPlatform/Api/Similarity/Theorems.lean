import QuantumPlatform.Api.Similarity
import QuantumPlatform.Indexer.Worker.Theorems
import QuantumPlatform.Process.Fallible
import Mathlib.Algebra.Order.Ring.Unbundled.Rat

namespace QuantumPlatform.Api

open Process Python Indexer Sql

section models

variable {env : Env} {modelName : String}

-- A statement carries the name of the model of its process.
def CarriesModel (modelName : String) : Indexer.Effect → Prop
  | .execute _ columns => columns.embeddingModel = modelName
  | _ => True

theorem statement_model {experiment : Json} {content experimentId : String}
    {embedding : List ℚ} {columns : EmbeddingColumns}
    (h : statement env experiment content embedding modelName = .ok (experimentId, columns)) :
    columns.embeddingModel = modelName := by
  simp only [statement, bind_eq_ok] at h
  obtain ⟨_, -, _, -, _, -, _, -, _, -, _, -, _, -, _, -, _, -, _, -, _, -, h⟩ := h
  obtain ⟨-, rfl⟩ := Prod.mk.inj (Except.ok.inj h)
  rfl

theorem afterCommit_only (outcome : Outcome) :
    (afterCommit outcome).Only (CarriesModel modelName) := by
  cases outcome with
  | returned => trivial
  | raised exc stored => trivial

theorem afterExecute_only (outcome : Outcome) :
    (afterExecute outcome).Only (CarriesModel modelName) := by
  cases outcome with
  | returned => exact ⟨trivial, afterCommit_only⟩
  | raised exc stored => trivial

theorem afterEncode_only (experiment : Json) (content : String) (answer : Except Exc (List ℚ)) :
    (afterEncode env modelName experiment content answer).Only (CarriesModel modelName) := by
  cases answer with
  | error exc => trivial
  | ok embedding =>
      unfold afterEncode
      cases hstatement : statement env experiment content embedding modelName with
      | error exc => simp only [hstatement]; trivial
      | ok row =>
          simp only [hstatement]
          exact ⟨statement_model hstatement, afterExecute_only⟩

theorem indexMessage_only (body : Body) :
    (indexMessage env modelName body).run.Only (CarriesModel modelName) := by
  by_cases h : ∃ experiment content, loads body = .ok experiment ∧
      canonicalExperimentText env experiment = .ok content
  · obtain ⟨experiment, content, hloads, hcontent⟩ := h
    rw [indexMessage_eq hloads hcontent]
    exact ⟨trivial, afterEncode_only experiment content⟩
  · obtain ⟨exc, hexc⟩ := @indexMessage_error env modelName body
      fun experiment content hloads hcontent => h ⟨experiment, content, hloads, hcontent⟩
    rw [hexc]
    trivial

-- Nothing in the table, and nothing on its way there, but vectors of the models in `started`.
structure Tagged (started : String → Prop) (index : Index) : Prop where
  rows : ∀ experimentId row, index.table.get? experimentId = some row →
    started row.embeddingModel
  session : ∀ session, index.session = some session →
    started session.modelName ∧ session.rest.Only (CarriesModel session.modelName)

variable {started : String → Prop} {index next : Index} {label : Indexer.Label}
  {labels : List Indexer.Label}

-- A row after an answered await was there before, or is what the statement has written.
theorem after_row {position : ℕ} {now : Indexer.DateTime} {op : Indexer.Effect} {answer : op.Ans}
    {experimentId : String} {row : EmbeddingRow}
    (h : (index.after position now op answer).table.get? experimentId = some row) :
    index.table.get? experimentId = some row ∨
      ∃ columns, op = .execute experimentId columns ∧ row.toEmbeddingColumns = columns := by
  cases op with
  | encode content => exact .inl h
  | commit =>
      cases hstored : Outcome.stored answer with
      | true => simp only [Index.after, hstored, if_true] at h; exact .inl h
      | false => simp only [Index.after, hstored] at h; exact .inl h
  | execute key columns =>
      cases hstored : Outcome.stored answer with
      | true =>
          simp only [Index.after, hstored, if_true, upsert, Dict.get?_set] at h
          by_cases hkey : experimentId = key
          · rw [if_pos hkey, Option.some_inj] at h
            exact .inr ⟨columns, hkey ▸ rfl, h ▸ rfl⟩
          · rw [if_neg hkey] at h
            exact .inl h
      | false => simp only [Index.after, hstored] at h; exact .inl h

theorem Tagged.step (h : Tagged started index) (hstep : Step env index label next)
    (hstart : ∀ name, label = .start name → started name) : Tagged started next := by
  cases hstep with
  | produce body => exact ⟨h.rows, h.session⟩
  | start name hnone =>
      refine ⟨h.rows, fun session hsession => ?_⟩
      obtain rfl := Option.some.inj hsession
      exact ⟨hstart name rfl, trivial⟩
  | deliver hsession hbody =>
      refine ⟨h.rows, fun session hnew => ?_⟩
      obtain rfl := Option.some.inj hnew
      exact ⟨(h.session _ hsession).1, indexMessage_only _⟩
  | @answer name position op rest answer now hsession hanswer =>
      obtain ⟨hname, hcarries, hrest⟩ := h.session _ hsession
      refine ⟨fun experimentId row hrow => ?_, fun session hnew => ?_⟩
      · rcases after_row hrow with hold | ⟨columns, rfl, rfl⟩
        · exact h.rows experimentId row hold
        · have hmodel : row.embeddingModel = name := hcarries
          rw [hmodel]
          exact hname
      · obtain rfl := Option.some.inj hnew
        exact ⟨hname, hrest answer⟩
  | exit hsession => exact ⟨h.rows, fun _ hnone => nomatch hnone⟩
  | crash => exact ⟨h.rows, fun _ hnone => nomatch hnone⟩

theorem row_model (run : Run (Step env) {} labels index) {experimentId : String}
    {row : EmbeddingRow} (hrow : index.table.get? experimentId = some row) :
    .start row.embeddingModel ∈ labels := by
  have hempty : Tagged (fun name => .start name ∈ labels) {} :=
    ⟨fun _ _ h => (nomatch h), fun _ h => (nomatch h)⟩
  have hstep : ∀ state label next, Tagged (fun name => .start name ∈ labels) state →
      label ∈ labels → Step env state label next →
        Tagged (fun name => .start name ∈ labels) next :=
    fun _ _ _ h hmem hlast => h.step hlast fun name hlabel => hlabel ▸ hmem
  have htagged := Run.invariant hstep run (fun _ hmem => hmem) hempty
  exact htagged.rows experimentId row hrow

end models

section similarity

variable {cosineDistance : String → String → ℚ} {table : EmbeddingTable}
  {request : SimilarRequest} {rows : List JoinedRow} {row : JoinedRow}

-- The sources of the join: there is at most one.
theorem joined_eq (table : EmbeddingTable) (request : SimilarRequest) : joined table request =
    (table.get? request.experimentId).toList.flatMap fun source =>
      (table.items.filter (joinCondition request (request.experimentId, source))).map
        fun candidate => ⟨source, candidate.1, candidate.2⟩ := by
  unfold joined
  rw [table.filter_key, List.flatMap_map]

theorem joinCondition_iff {source candidate : String × EmbeddingRow} :
    joinCondition request source candidate = true ↔ candidate.1 ≠ source.1 ∧
      (request.sameAlgorithm = true → candidate.2.algorithm = source.2.algorithm) := by
  unfold joinCondition
  cases hflag : request.sameAlgorithm with
  | true => simp
  | false => simp

theorem mem_joined : row ∈ joined table request ↔ Eligible table request row := by
  rw [joined_eq, List.mem_flatMap]
  constructor
  · rintro ⟨source, hsource, hrow⟩
    obtain ⟨⟨candidateId, candidate⟩, hon, rfl⟩ := List.mem_map.mp hrow
    obtain ⟨hcandidate, hjoin⟩ := List.mem_filter.mp hon
    exact ⟨Option.mem_toList.mp hsource, table.mem_items_iff.mp hcandidate,
      joinCondition_iff.mp hjoin⟩
  · rintro ⟨hsource, hcandidate, hjoin⟩
    exact ⟨row.source, Option.mem_toList.mpr hsource, List.mem_map.mpr
      ⟨(row.candidateId, row.candidate), List.mem_filter.mpr
        ⟨table.mem_items_iff.mpr hcandidate, joinCondition_iff.mpr hjoin⟩, rfl⟩⟩

theorem joined_once (table : EmbeddingTable) (request : SimilarRequest) :
    ((joined table request).map JoinedRow.candidateId).Nodup := by
  rw [joined_eq]
  cases table.get? request.experimentId with
  | none => exact List.nodup_nil
  | some source =>
      have hkept : (table.items.filter (joinCondition request (request.experimentId, source))).Sublist
          table.items := List.filter_sublist
      rw [Option.toList_some, List.flatMap_singleton, List.map_map]
      exact table.nodup.sublist (hkept.map Prod.fst)

-- Comparing within one model is all that a selection can lack.
theorem Selected.comparable_iff (h : Selected cosineDistance table request rows) :
    Comparable cosineDistance table request rows ↔ ∀ row ∈ rows, row.SameModel := by
  refine ⟨fun hcomparable => hcomparable.sameModel, fun hmodel => ?_⟩
  obtain ⟨ordered, hordered, rfl⟩ := h
  have hfirst := List.take_sublist request.limit ordered
  have honce : (ordered.map JoinedRow.candidateId).Nodup :=
    (hordered.perm.map _).nodup_iff.mpr (joined_once table request)
  exact
    { eligible := fun row hrow => mem_joined.mp (hordered.mem_iff.mp (hfirst.subset hrow))
      sameModel := hmodel
      once := honce.sublist (hfirst.map JoinedRow.candidateId)
      sorted := hordered.sorted.sublist hfirst
      length_le := List.length_take_le _ _
      nearest := fun row heligible _ => hordered.mem_take_or (mem_joined.mpr heligible) }

-- Whatever table it is asked of.
theorem selected_comparable_iff (cosineDistance : String → String → ℚ) (table : EmbeddingTable)
    (request : SimilarRequest) :
    (∀ rows, Selected cosineDistance table request rows →
        Comparable cosineDistance table request rows) ↔
      Separated cosineDistance table request := by
  calc (∀ rows, Selected cosineDistance table request rows →
        Comparable cosineDistance table request rows)
      ↔ ∀ ordered, Ordered (fun a b => a.distance cosineDistance ≤ b.distance cosineDistance)
          (joined table request) ordered → ∀ row ∈ ordered.take request.limit, row.SameModel := by
        refine ⟨fun h ordered hordered => (h _ ⟨ordered, hordered, rfl⟩).sameModel, ?_⟩
        intro h rows hselected
        rw [hselected.comparable_iff]
        obtain ⟨ordered, hordered, rfl⟩ := hselected
        exact h ordered hordered
    _ ↔ ∀ row ∈ joined table request, ¬row.SameModel → request.limit ≤
          (joined table request).countP fun other => decide (other.SameModel ∧
            other.distance cosineDistance < row.distance cosineDistance) := take_forall_iff
    _ ↔ Separated cosineDistance table request := by
        simp only [Separated, mem_joined, le_countP_iff (joined_once table request)]

-- The response lists the selected rows, one for one.
theorem similarExperiments_ok {databaseUrl : Option String} {response : List SimilarExperiment}
    (h : similarExperiments cosineDistance databaseUrl table request rows = .ok response) :
    response.map SimilarExperiment.experimentId = rows.map JoinedRow.candidateId := by
  have hpresent : ∀ row item, JoinedRow.present cosineDistance row = .ok item →
      item.experimentId = row.candidateId := by
    intro row item hitem
    unfold JoinedRow.present at hitem
    by_cases hbounds : -1 ≤ 1 - row.distance cosineDistance ∧ 1 - row.distance cosineDistance ≤ 1
    · obtain rfl := Except.ok.inj ((dif_pos hbounds).symm.trans hitem)
      rfl
    · exact absurd ((dif_neg hbounds).symm.trans hitem) (fun h => nomatch h)
  unfold similarExperiments at h
  by_cases hurl : databaseUrl.getD "" = ""
  · exact absurd ((if_pos hurl).symm.trans h) (fun h => nomatch h)
  · rw [if_neg hurl] at h
    by_cases hmissing : (rows.isEmpty && (table.get? request.experimentId).isNone) = true
    · exact absurd ((if_pos hmissing).symm.trans h) (fun h => nomatch h)
    · rw [if_neg hmissing] at h
      exact map_eq_of_mapM (fun row _ item hitem => hpresent row item hitem) h

-- One experiment indexed before and one after a restart, perhaps with another model.
theorem exists_restarted (first second : String) (request : SimilarRequest)
    (hrequest : request.experimentId = "a") :
    ∃ (env : Env) (labels : List Indexer.Label) (index : Index) (row : JoinedRow),
      Run (Step env) {} labels index ∧
        (∀ name, .start name ∈ labels → name = first ∨ name = second) ∧
          row.source.embeddingModel = first ∧ row.candidate.embeddingModel = second ∧
            joined index.table request = [row] := by
  let env : Env := ⟨fun _ => "", fun _ => "", fun _ => .ok .null, fun _ => "", fun _ _ => []⟩
  let experiment (experimentId : String) : Json :=
    .obj [("id", .str experimentId), ("algorithm", .str "qpe")]
  have hloads : ∀ experimentId, loads (.json (experiment experimentId)) =
      .ok (experiment experimentId) := fun _ => rfl
  obtain ⟨content, hany⟩ : ∃ content, canonicalExperimentText env (experiment "a") = .ok content :=
    ⟨_, rfl⟩
  have hcontent : ∀ experimentId, canonicalExperimentText env (experiment experimentId) =
      .ok content := fun _ => hany
  have hstatement : ∀ experimentId modelName,
      statement env (experiment experimentId) content [] modelName =
        .ok (experimentId, ⟨"qpe", none, content, "[]", modelName⟩) := fun _ _ => rfl
  have hproduced : Run (Step env) {} [.produce (.json (experiment "a")),
      .produce (.json (experiment "b"))]
      { log := [.json (experiment "a"), .json (experiment "b")] } :=
    .cons (.produce _) (.single (.produce _))
  have hindexed := hproduced.append
    (run_indexes rfl rfl (hloads "a") (hcontent "a") (hstatement "a" first) 0)
  have hcrashed := hindexed.append (.single .crash)
  have hrestarted := hcrashed.append
    (run_indexes rfl rfl (hloads "b") (hcontent "b") (hstatement "b" second) 1)
  refine ⟨env, _, _, ⟨⟨⟨"qpe", none, content, "[]", first⟩, 0, 0⟩, "b",
    ⟨⟨"qpe", none, content, "[]", second⟩, 1, 1⟩⟩, hrestarted, fun name hmem => ?_, rfl, rfl, ?_⟩
  · simpa using hmem
  · obtain ⟨experimentId, limit, sameAlgorithm, hlimit⟩ := request
    obtain rfl : experimentId = "a" := hrequest
    cases sameAlgorithm with
    | true => rfl
    | false => rfl

variable {env : Env} {index : Index} {labels : List Indexer.Label}

-- What an index answers compares vectors of one model, whatever its history, exactly when
-- the other models' vectors are too far away to be selected; with one model there are none.
theorem similar_comparable (run : Run (Step env) {} labels index)
    (cosineDistance : String → String → ℚ) (request : SimilarRequest) :
    ((∀ rows, Selected cosineDistance index.table request rows →
        Comparable cosineDistance index.table request rows) ↔
          Separated cosineDistance index.table request) ∧
      ((∀ first second, .start first ∈ labels → .start second ∈ labels → first = second) →
        Separated cosineDistance index.table request) := by
  refine ⟨selected_comparable_iff cosineDistance index.table request, fun hone => ?_⟩
  rintro row ⟨hsource, hcandidate, -, -⟩ hother
  exact absurd (hone _ _ (row_model run hcandidate) (row_model run hsource)) hother

-- Restarted with the same model, the index compares what it should.
theorem similar_comparable_one : ∃ (env : Env) (labels : List Indexer.Label) (index : Index)
    (request : SimilarRequest), Run (Step env) {} labels index ∧
      joined index.table request ≠ [] ∧ ∀ cosineDistance rows,
        Selected cosineDistance index.table request rows →
          Comparable cosineDistance index.table request rows := by
  obtain ⟨env, labels, index, row, run, hnames, -, -, hjoined⟩ :=
    exists_restarted "model" "model" ⟨"a", 10, true, by decide⟩ rfl
  refine ⟨env, labels, index, _, run, hjoined ▸ List.cons_ne_nil row [], fun cosineDistance => ?_⟩
  obtain ⟨hiff, hone⟩ := similar_comparable run cosineDistance ⟨"a", 10, true, by decide⟩
  refine hiff.mpr (hone fun first second hfirst hsecond => ?_)
  have hname : ∀ name, .start name ∈ labels → name = "model" := fun name hmem =>
    (hnames name hmem).elim id id
  rw [hname first hfirst, hname second hsecond]

-- Restarted with another model, it answers the first experiment with the second.
theorem similar_incomparable : ∃ (env : Env) (labels : List Indexer.Label) (index : Index)
    (request : SimilarRequest) (row : JoinedRow), Run (Step env) {} labels index ∧
      ∀ cosineDistance, Selected cosineDistance index.table request [row] ∧
        row.source.embeddingModel = "first" ∧ row.candidate.embeddingModel = "second" ∧
          ¬Comparable cosineDistance index.table request [row] := by
  obtain ⟨env, labels, index, row, run, -, hsource, hcandidate, hjoined⟩ :=
    exists_restarted "first" "second" ⟨"a", 10, true, by decide⟩ rfl
  refine ⟨env, labels, index, ⟨"a", 10, true, by decide⟩, row, run, fun cosineDistance =>
    ⟨⟨[row], ⟨.of_eq hjoined.symm, List.pairwise_singleton _ _⟩, rfl⟩, hsource, hcandidate,
      fun hcomparable => ?_⟩⟩
  have hmodel : row.candidate.embeddingModel = row.source.embeddingModel :=
    hcomparable.sameModel row List.mem_cons_self
  rw [hsource, hcandidate] at hmodel
  exact absurd hmodel (by decide)

end similarity

end QuantumPlatform.Api
