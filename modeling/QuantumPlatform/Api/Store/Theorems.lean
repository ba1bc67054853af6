import QuantumPlatform.Api.Store

namespace QuantumPlatform.Api

open Process Python Sql

variable {experiments : List ExperimentResponse} {experiment : ExperimentResponse}
  {algorithm status : Option String} {sortDesc : Bool}

section specification

theorem latest_append (experimentId : String) :
    latest (experiments ++ [experiment]) experimentId =
      if experiment.id = experimentId then some experiment
      else latest experiments experimentId := by
  unfold latest
  rw [List.reverse_append, List.reverse_singleton, List.singleton_append, List.find?_cons]
  by_cases hid : experiment.id = experimentId
  · simp [hid]
  · simp [hid]

theorem latest_id {experimentId : String} (h : latest experiments experimentId = some experiment) :
    experiment.id = experimentId := by
  unfold latest at h
  have hid := List.find?_some h
  exact of_decide_eq_true hid

theorem keeping_keeping {α : Type} (first second : α → String) (found : List α) :
    keeping status second (keeping algorithm first found) =
      found.filter fun e => decide
        ((∀ wanted ∈ algorithm, first e = wanted) ∧ ∀ wanted ∈ status, second e = wanted) := by
  have hkeeping : ∀ (wanted : Option String) (field : α → String) (found : List α),
      keeping wanted field found =
        found.filter fun e => decide (∀ value ∈ wanted, field e = value) := by
    intro wanted field found
    cases wanted with
    | none => simp [keeping]
    | some value => simp [keeping]
  rw [hkeeping, hkeeping, List.filter_filter]
  exact List.filter_congr fun e _ => by rw [Bool.decide_and, Bool.and_comm]

theorem inOrder_trans (first second third : DateTime) (h : inOrder sortDesc first second)
    (hnext : inOrder sortDesc second third) : inOrder sortDesc first third := by
  cases sortDesc with
  | true => exact le_trans (α := Int) hnext h
  | false => exact le_trans (α := Int) h hnext

theorem inOrder_total (first second : DateTime) :
    inOrder sortDesc first second ∨ inOrder sortDesc second first := by
  cases sortDesc with
  | true => exact Int.le_total second first
  | false => exact Int.le_total first second

instance : Std.Antisymm (inOrder sortDesc) := ⟨fun first second h hback => by
  cases sortDesc with
  | true => exact Int.le_antisymm hback h
  | false => exact Int.le_antisymm h hback⟩

theorem Algorithm.ofValue_value (algorithm : Algorithm) :
    Algorithm.ofValue algorithm.value = .ok algorithm := by
  cases algorithm with
  | grover => rfl
  | satGrover => rfl
  | qpe => rfl
  | vqe => rfl

theorem ExperimentStatus.ofValue_value (status : ExperimentStatus) :
    ExperimentStatus.ofValue status.value = .ok status := by
  cases status with
  | queued => rfl
  | waitingForCalibration => rfl
  | completed => rfl
  | failed => rfl

-- The pair that stats counts an experiment under.
def pair (key : Algorithm × ExperimentStatus) : String ×ₗ String :=
  toLex (key.1.value, key.2.value)

theorem pair_injective : Function.Injective pair := by
  rintro ⟨algorithm, status⟩ ⟨other, more⟩ h
  obtain ⟨halgorithm, hstatus⟩ := Prod.mk.inj (toLex.injective h)
  have hfirst : algorithm = other := by
    have hparsed := congrArg Algorithm.ofValue halgorithm
    rw [Algorithm.ofValue_value, Algorithm.ofValue_value] at hparsed
    exact Except.ok.inj hparsed
  have hsecond : status = more := by
    have hparsed := congrArg ExperimentStatus.ofValue hstatus
    rw [ExperimentStatus.ofValue_value, ExperimentStatus.ofValue_value] at hparsed
    exact Except.ok.inj hparsed
  rw [hfirst, hsecond]

def ExperimentResponse.group (experiment : ExperimentResponse) : String ×ₗ String :=
  pair (experiment.algorithm, experiment.status)

theorem matches_iff {algorithm status : String} :
    Matches (some algorithm) (some status) experiment ↔
      experiment.group = toLex (algorithm, status) := by
  unfold Matches ExperimentResponse.group pair
  simp

-- The grouped query, row by row, as stats returns it.
theorem Counts.of_tally {entries : List ((String ×ₗ String) × ℕ)}
    (h : Tally (latest experiments) ExperimentResponse.id ExperimentResponse.group entries) :
    Counts experiments (entries.map ExperimentCount.ofGroup) := by
  refine ⟨List.pairwise_map.mpr h.sorted, fun algorithm status => ?_, fun entry hentry => ?_⟩
  · have hmem : ∀ count, (⟨algorithm, status, count⟩ : ExperimentCount) ∈
        entries.map ExperimentCount.ofGroup ↔ (toLex (algorithm, status), count) ∈ entries := by
      intro count
      constructor
      · intro hmem
        obtain ⟨row, hrow, heq⟩ := List.mem_map.mp hmem
        cases heq
        exact hrow
      · exact fun hmem => List.mem_map.mpr ⟨_, hmem, rfl⟩
    simp only [hmem, h.mem_iff, matches_iff]
  · obtain ⟨row, hrow, rfl⟩ := List.mem_map.mp hentry
    exact fun sortDesc listed hlisted =>
      h.count row.1 row.2 hrow _ _ listed (fun e => matches_iff) hlisted

end specification

namespace InMemoryExperimentStore

theorem get_saveAll (experiments : List ExperimentResponse) (experimentId : String) :
    (saveAll experiments).get experimentId = latest experiments experimentId := by
  induction experiments using List.reverseRecOn with
  | nil => rfl
  | append_singleton experiments experiment ih =>
      rw [saveAll, List.foldl_append, List.foldl_cons, List.foldl_nil, get_save, latest_append]
      by_cases hid : experimentId = experiment.id
      · rw [if_pos hid, if_pos hid.symm]
      · rw [if_neg hid, if_neg (Ne.symm hid)]
        exact ih

theorem rows_values (store : InMemoryExperimentStore) :
    Rows store.get ExperimentResponse.id store.data.values := by
  refine ⟨?_, fun experiment => ?_, List.pairwise_of_forall fun _ _ => trivial⟩
  · rw [Dict.map_values_eq store.keyed]
    exact store.data.nodup
  · rw [Dict.mem_values_iff store.keyed, and_true]
    rfl

theorem rows_saveAll (experiments : List ExperimentResponse) :
    Rows (latest experiments) ExperimentResponse.id (saveAll experiments).data.values := by
  have hget : (saveAll experiments).get = latest experiments :=
    funext (get_saveAll experiments)
  rw [← hget]
  exact rows_values _

theorem listAll_lists (experiments : List ExperimentResponse) (algorithm status : Option String)
    (sortDesc : Bool) :
    Lists experiments algorithm status sortDesc
      ((saveAll experiments).listAll algorithm status sortDesc) := by
  unfold listAll
  simp only [keeping_keeping]
  refine Listing.of_ordered (rows_saveAll experiments) (ordered_mergeSort ?_ ?_ _)
  · exact fun first second third => inOrder_trans _ _ _
  · exact fun first second => inOrder_total _ _

-- What `counts` holds once the loop is over.
theorem grouped_counts (found : List ExperimentResponse) :
    Grouped (found.map fun e => (e.algorithm, e.status))
      (found.foldl (fun (counts : Dict (Algorithm × ExperimentStatus) ℕ) e =>
        counts.set (e.algorithm, e.status) (counts.get (e.algorithm, e.status) 0 + 1)) ∅).items := by
  refine ⟨Dict.nodup _, fun group count => ?_⟩
  rw [Dict.mem_items_iff, Dict.get?_count fun e : ExperimentResponse => (e.algorithm, e.status)]
  split_ifs with hpos
  · rw [Option.some_inj, eq_comm]
    exact ⟨fun heq => ⟨heq ▸ hpos, heq⟩, And.right⟩
  · exact ⟨fun h => (nomatch h), fun ⟨hcounted, heq⟩ => absurd (heq ▸ hcounted) hpos⟩

theorem stats_counts (experiments : List ExperimentResponse) :
    Counts experiments (saveAll experiments).stats := by
  have hgrouped := (grouped_counts (saveAll experiments).data.values).map pair_injective
  rw [List.map_map] at hgrouped
  have hordered : ∀ items : List ((Algorithm × ExperimentStatus) × ℕ),
      Ordered (fun first second => itemKey first ≤ itemKey second) items
        (items.mergeSort fun first second => decide (itemKey first ≤ itemKey second)) :=
    ordered_mergeSort (fun _ _ _ => le_trans) fun _ _ => le_total _ _
  have hpairs : ∀ first second : (Algorithm × ExperimentStatus) × ℕ,
      itemKey first ≤ itemKey second → pair first.1 ≤ pair second.1 := fun first second hle =>
    (Prod.Lex.le_iff.mp hle).elim le_of_lt fun heq => le_of_eq heq.1
  have hcounts := Counts.of_tally (Tally.of_grouped (rows_saveAll experiments) hgrouped
    ((hordered _).map hpairs))
  rw [List.map_map] at hcounts
  exact hcounts

end InMemoryExperimentStore

section rows

theorem member_ok {α : Type} {members : List α} {value : α → String} {text : String} {found : α}
    (h : member members value text = .ok found) : value found = text := by
  unfold member at h
  cases hfind : members.find? fun found => decide (value found = text) with
  | none =>
      rw [hfind] at h
      cases h
  | some other =>
      rw [hfind] at h
      obtain rfl : other = found := Except.ok.inj h
      have hvalue := List.find?_some hfind
      exact of_decide_eq_true hvalue

theorem rowToResponse_ok {row : ExperimentRow} (h : rowToResponse row = .ok experiment) :
    experiment.id = row.id ∧ experiment.algorithm.value = row.algorithm ∧
      experiment.status.value = row.status ∧ experiment.submittedAt = row.submittedAt := by
  simp only [rowToResponse, bind_eq_ok] at h
  obtain ⟨algorithm, halgorithm, status, hstatus, parameters, -, result, -, h⟩ := h
  obtain rfl := Except.ok.inj h
  exact ⟨rfl, member_ok halgorithm, member_ok hstatus, rfl⟩

-- A record that pydantic accepts is what reading its row gives.
theorem exists_row (hvalid : experiment.Valid) :
    ∃ row, ExperimentRow.ofResponse experiment = .ok row ∧ row.id = experiment.id ∧
      rowToResponse row = .ok experiment := by
  obtain ⟨text, htext, hread⟩ : ∃ text, textParameter experiment.error = .ok text ∧
      text.elim .null .str = experiment.error := by
    have herror := hvalid.error
    cases hkind : experiment.error with
    | null => exact ⟨none, rfl, rfl⟩
    | str text => exact ⟨some text, rfl, rfl⟩
    | bool _ => rw [hkind] at herror; cases herror
    | int _ => rw [hkind] at herror; cases herror
    | float _ => rw [hkind] at herror; cases herror
    | arr _ => rw [hkind] at herror; cases herror
    | obj _ => rw [hkind] at herror; cases herror
  have hdict : ∀ value, isDictOrNone value = true → dictOrNone value = .ok value :=
    fun value h => if_pos h
  refine ⟨⟨experiment.id, experiment.algorithm.value, experiment.status.value,
    experiment.submittedAt, experiment.completedAt, experiment.parameters, experiment.result,
    text⟩, ?_, rfl, ?_⟩
  · rw [ExperimentRow.ofResponse, htext]
    rfl
  · simp only [rowToResponse, Algorithm.ofValue_value, ExperimentStatus.ofValue_value,
      hdict _ hvalid.parameters, hdict _ hvalid.result, hread]
    rfl

end rows

namespace PostgresExperimentStore

-- The table holds a row for each latest version, and reading it gives that version.
structure Refines (experiments : List ExperimentResponse) (store : PostgresExperimentStore) :
    Prop where
  held : ∀ experiment, latest experiments experiment.id = some experiment ↔
    ∃ row, store.table.get? row.id = some row ∧ rowToResponse row = .ok experiment
  decodes : ∀ experimentId row, store.table.get? experimentId = some row →
    ∃ experiment, rowToResponse row = .ok experiment

theorem Refines.save {store : PostgresExperimentStore} {row : ExperimentRow}
    (h : Refines experiments store) (hid : row.id = experiment.id)
    (hrow : rowToResponse row = .ok experiment) :
    Refines (experiments ++ [experiment]) (store.upsert row) := by
  have hget : ∀ experimentId, (store.upsert row).table.get? experimentId =
      if experimentId = row.id then some row else store.table.get? experimentId := by
    intro experimentId
    change (store.table.set row.id (upserted store.table row)).get? experimentId = _
    rw [upserted_eq, Dict.get?_set]
  refine ⟨fun other => ?_, fun experimentId found hfound => ?_⟩
  · rw [latest_append]
    by_cases hsame : experiment.id = other.id
    · rw [if_pos hsame, Option.some_inj]
      constructor
      · rintro rfl
        exact ⟨row, by rw [hget, if_pos rfl], hrow⟩
      · rintro ⟨found, hfound, hother⟩
        have hkey : found.id = row.id := by
          rw [hid, hsame, (rowToResponse_ok hother).1]
        rw [hget, if_pos hkey, Option.some_inj] at hfound
        rw [hfound, hother] at hrow
        exact (Except.ok.inj hrow).symm
    · rw [if_neg hsame, h.held]
      refine exists_congr fun found => and_congr_left fun hother => ?_
      have hkey : found.id ≠ row.id := by
        rw [hid, ← (rowToResponse_ok hother).1]
        exact Ne.symm hsame
      rw [hget, if_neg hkey]
  · rw [hget] at hfound
    by_cases hkey : experimentId = row.id
    · rw [if_pos hkey, Option.some_inj] at hfound
      exact ⟨experiment, hfound ▸ hrow⟩
    · rw [if_neg hkey] at hfound
      exact h.decodes experimentId found hfound

theorem exists_saveAll (hvalid : ∀ experiment ∈ experiments, experiment.Valid) :
    ∃ store, saveAll experiments = .ok store ∧ Refines experiments store := by
  induction experiments using List.reverseRecOn with
  | nil =>
      refine ⟨∅, rfl, fun experiment => ⟨fun h => (nomatch h), ?_⟩, fun _ _ h => (nomatch h)⟩
      rintro ⟨row, hrow, -⟩
      cases hrow
  | append_singleton experiments experiment ih =>
      obtain ⟨store, hstore, hrefines⟩ := ih fun other hmem =>
        hvalid other (List.mem_append_left _ hmem)
      obtain ⟨row, hrow, hid, hread⟩ :=
        exists_row (hvalid experiment (List.mem_append_right _ List.mem_cons_self))
      refine ⟨store.upsert row, ?_, hrefines.save hid hread⟩
      unfold saveAll at hstore ⊢
      rw [List.foldlM_append, hstore]
      simp only [List.foldlM_cons, List.foldlM_nil, PostgresExperimentStore.save, hrow]
      rfl

theorem rows_values (store : PostgresExperimentStore) :
    Rows store.table.get? ExperimentRow.id store.table.values := by
  refine ⟨?_, fun row => ?_, List.pairwise_of_forall fun _ _ => trivial⟩
  · rw [Dict.map_values_eq store.keyed]
    exact store.table.nodup
  · rw [Dict.mem_values_iff store.keyed, and_true]

variable {store : PostgresExperimentStore}

theorem Refines.get (h : Refines experiments store) (experimentId : String) :
    store.get experimentId = .ok (latest experiments experimentId) := by
  unfold PostgresExperimentStore.get
  cases hfound : store.table.get? experimentId with
  | none =>
      cases hlatest : latest experiments experimentId with
      | none => rfl
      | some experiment =>
          have hid := latest_id hlatest
          obtain ⟨row, hrow, hread⟩ := (h.held experiment).mp (hid.symm ▸ hlatest)
          rw [← (rowToResponse_ok hread).1, hid, hfound] at hrow
          cases hrow
  | some row =>
      obtain ⟨experiment, hread⟩ := h.decodes experimentId row hfound
      have hid : row.id = experimentId := store.keyed experimentId row hfound
      have hlatest := (h.held experiment).mpr ⟨row, hid.symm ▸ hfound, hread⟩
      rw [(rowToResponse_ok hread).1, hid] at hlatest
      simp only [hread, hlatest]
      rfl

theorem Refines.exists_read (h : Refines experiments store) {rows : List ExperimentRow}
    (hrows : ∀ row ∈ rows, row ∈ store.table.values) :
    ∃ listed, rows.mapM rowToResponse = .ok listed :=
  exists_mapM fun row hrow =>
    h.decodes row.id row ((Dict.mem_values_iff store.keyed).mp (hrows row hrow))

theorem Refines.listAll (h : Refines experiments store) {rows : List ExperimentRow}
    (hrows : Ordered (fun first second => inOrder sortDesc first.submittedAt second.submittedAt)
      (keeping status ExperimentRow.status (keeping algorithm ExperimentRow.algorithm
        store.table.values)) rows) :
    ∃ listed, rows.mapM rowToResponse = .ok listed ∧
      Lists experiments algorithm status sortDesc listed := by
  rw [keeping_keeping] at hrows
  obtain ⟨listed, hlisted⟩ := h.exists_read fun row hrow =>
    List.mem_of_mem_filter (hrows.mem_iff.mp hrow)
  have hlisting := Listing.of_ordered store.rows_values hrows
  refine ⟨listed, hlisted, hlisting.decoded hlisted (fun row value hread => ?_)
    (fun row value hread => ?_) (fun row value hread => ?_) h.held⟩
  · exact (rowToResponse_ok hread).1
  · obtain ⟨-, halgorithm, hstatus, -⟩ := rowToResponse_ok hread
    rw [Matches, halgorithm, hstatus]
  · exact (rowToResponse_ok hread).2.2.2

theorem Refines.stats (h : Refines experiments store) {answer : List ExperimentCount}
    (hstats : store.Stats answer) : Counts experiments answer := by
  obtain ⟨groups, ordered, hgroups, hordered, rfl⟩ := hstats
  obtain ⟨found, hfound⟩ := h.exists_read fun row hrow => hrow
  have hrows : Rows (latest experiments) ExperimentResponse.id found :=
    store.rows_values.read hfound (fun row value hread => (rowToResponse_ok hread).1) h.held
  have hkeys : found.map ExperimentResponse.group = store.table.values.map ExperimentRow.group := by
    refine map_eq_of_mapM (fun row _ value hread => ?_) hfound
    obtain ⟨-, halgorithm, hstatus, -⟩ := rowToResponse_ok hread
    rw [ExperimentResponse.group, pair, halgorithm, hstatus, ExperimentRow.group]
  rw [← hkeys] at hgroups
  exact Counts.of_tally (Tally.of_grouped hrows hgroups hordered)

theorem exists_listAll (store : PostgresExperimentStore) (algorithm status : Option String)
    (sortDesc : Bool) : ∃ answer, store.ListAll algorithm status sortDesc answer :=
  ⟨_, _, ordered_mergeSort
    (fun a b c => inOrder_trans a.submittedAt b.submittedAt c.submittedAt)
    (fun a b => inOrder_total a.submittedAt b.submittedAt) _, rfl⟩

theorem exists_stats (store : PostgresExperimentStore) : ∃ answer, store.Stats answer := by
  obtain ⟨groups, hgroups⟩ := exists_grouped (store.table.values.map ExperimentRow.group)
  exact ⟨_, groups, _, hgroups,
    ordered_mergeSort (fun a b c => @le_trans _ _ a.1 b.1 c.1) (fun a b => le_total a.1 b.1)
      groups, rfl⟩

end PostgresExperimentStore

section agreement

theorem Counts.mem {first second : List ExperimentCount} (hfirst : Counts experiments first)
    (hsecond : Counts experiments second) {entry : ExperimentCount} (hentry : entry ∈ first) :
    entry ∈ second := by
  obtain ⟨count, hcount⟩ := (hsecond.nonempty_iff entry.algorithm entry.status).mpr
    ((hfirst.nonempty_iff entry.algorithm entry.status).mp ⟨entry.count, hentry⟩)
  have hlisted := InMemoryExperimentStore.listAll_lists experiments (some entry.algorithm)
    (some entry.status) true
  have hequal : entry.count = count :=
    (hfirst.count entry hentry true _ hlisted).trans (hsecond.count _ hcount true _ hlisted).symm
  rw [← hequal] at hcount
  exact hcount

-- The statistics are determined, to the order of their entries.
theorem Counts.unique {first second : List ExperimentCount} (hfirst : Counts experiments first)
    (hsecond : Counts experiments second) : first = second := by
  have honce : ∀ {stats}, Counts experiments stats → stats.Nodup := by
    intro stats h
    refine h.sorted.imp fun hlt => ?_
    rintro rfl
    exact lt_irrefl _ hlt
  have hperm : first.Perm second := (List.perm_ext_iff_of_nodup (honce hfirst) (honce hsecond)).mpr
    fun entry => ⟨hfirst.mem hsecond, hsecond.mem hfirst⟩
  exact hperm.eq_of_pairwise (fun a b _ _ hab hba => absurd (hab.trans hba) (lt_irrefl _))
    hfirst.sorted hsecond.sorted

-- Whatever has been saved, both stores answer as the latest versions do.
theorem stores_implement (saved : List Experiment) :
    ∃ postgres, PostgresExperimentStore.saveAll saved.unattach = .ok postgres ∧
      (∀ experimentId,
        (InMemoryExperimentStore.saveAll saved.unattach).get experimentId =
            latest saved.unattach experimentId ∧
          postgres.get experimentId = .ok (latest saved.unattach experimentId)) ∧
      (∀ algorithm status sortDesc,
        Lists saved.unattach algorithm status sortDesc
            ((InMemoryExperimentStore.saveAll saved.unattach).listAll algorithm status sortDesc) ∧
          (∃ answer, postgres.ListAll algorithm status sortDesc answer) ∧
          ∀ answer, postgres.ListAll algorithm status sortDesc answer →
            ∃ listed, answer = .ok listed ∧ Lists saved.unattach algorithm status sortDesc listed ∧
              listed.Perm ((InMemoryExperimentStore.saveAll saved.unattach).listAll
                algorithm status sortDesc) ∧
              listed.map ExperimentResponse.submittedAt =
                ((InMemoryExperimentStore.saveAll saved.unattach).listAll
                  algorithm status sortDesc).map ExperimentResponse.submittedAt) ∧
      Counts saved.unattach (InMemoryExperimentStore.saveAll saved.unattach).stats ∧
      (∃ answer, postgres.Stats answer) ∧
      ∀ answer, postgres.Stats answer →
        answer = (InMemoryExperimentStore.saveAll saved.unattach).stats := by
  have hvalid : ∀ experiment ∈ saved.unattach, experiment.Valid := by
    intro experiment hmem
    obtain ⟨⟨_, h⟩, -, rfl⟩ := List.mem_map.mp hmem
    exact h
  obtain ⟨postgres, hsaved, hrefines⟩ := PostgresExperimentStore.exists_saveAll hvalid
  have hcounts := InMemoryExperimentStore.stats_counts saved.unattach
  refine ⟨postgres, hsaved, fun experimentId =>
      ⟨InMemoryExperimentStore.get_saveAll _ experimentId, hrefines.get experimentId⟩,
    fun algorithm status sortDesc => ?_, hcounts, postgres.exists_stats,
    fun answer hanswer => (hrefines.stats hanswer).unique hcounts⟩
  have hmemory := InMemoryExperimentStore.listAll_lists saved.unattach algorithm status sortDesc
  refine ⟨hmemory, postgres.exists_listAll algorithm status sortDesc, ?_⟩
  rintro answer ⟨rows, hrows, rfl⟩
  obtain ⟨listed, hread, hlisted⟩ := hrefines.listAll hrows
  exact ⟨listed, hread, hlisted, hlisted.perm hmemory, hlisted.map_eq hmemory⟩

end agreement

end QuantumPlatform.Api
