import QuantumPlatform.Indexer.Worker
import QuantumPlatform.Process.Replay

namespace QuantumPlatform.Indexer

open Process Python

variable {env : Env} {modelName : String}

section equations

-- What is left of the loop body after each of its awaits.
def afterCommit : Outcome → Program sig (Except Exc Unit)
  | .returned => .ret (.ok ())
  | .raised exc _ => .ret (.error exc)

def afterExecute : Outcome → Program sig (Except Exc Unit)
  | .returned => .call .commit afterCommit
  | .raised exc _ => .ret (.error exc)

def afterEncode (env : Env) (modelName : String) (experiment : Json) (content : String) :
    Except Exc (List ℚ) → Program sig (Except Exc Unit)
  | .error exc => .ret (.error exc)
  | .ok embedding => match statement env experiment content embedding modelName with
    | .error exc => .ret (.error exc)
    | .ok (experimentId, columns) => .call (.execute experimentId columns) afterExecute

theorem run_commit :
    (do Py.ofOutcome (← @Py.await sig .commit) : Py sig Unit).run = .call .commit afterCommit := by
  refine congrArg (@Program.call sig (Except Exc Unit) .commit) (funext fun outcome => ?_)
  cases outcome with
  | returned => rfl
  | raised exc stored => rfl

theorem run_upsert (experiment : Json) (content : String) (embedding : List ℚ) :
    (do
      upsertEmbedding env experiment content embedding modelName
      Py.ofOutcome (← @Py.await sig .commit) : Py sig Unit).run =
        afterEncode env modelName experiment content (.ok embedding) := by
  unfold upsertEmbedding afterEncode
  cases hstatement : statement env experiment content embedding modelName with
  | error exc => simp only [hstatement]; rfl
  | ok result =>
      obtain ⟨experimentId, columns⟩ := result
      simp only [hstatement]
      refine congrArg (@Program.call sig (Except Exc Unit) (.execute experimentId columns))
        (funext fun outcome => ?_)
      cases outcome with
      | returned => exact run_commit
      | raised exc stored => rfl

theorem indexMessage_eq {body : Body} {experiment : Json} {content : String}
    (hloads : loads body = .ok experiment)
    (hcontent : canonicalExperimentText env experiment = .ok content) :
    (indexMessage env modelName body).run =
      .call (.encode content) (afterEncode env modelName experiment content) := by
  unfold indexMessage
  simp only [hloads, hcontent, Py.ofExcept_ok, pure_bind]
  refine congrArg (@Program.call sig (Except Exc Unit) (.encode content)) (funext fun answer => ?_)
  cases answer with
  | error exc => rfl
  | ok embedding => exact run_upsert experiment content embedding

theorem indexMessage_error {body : Body} (h : ∀ experiment content, loads body = .ok experiment →
      canonicalExperimentText env experiment ≠ .ok content) :
    ∃ exc, (indexMessage env modelName body).run = .ret (.error exc) := by
  unfold indexMessage
  cases hloads : loads body with
  | error exc => exact ⟨exc, rfl⟩
  | ok experiment =>
      cases hcontent : canonicalExperimentText env experiment with
      | error exc =>
          simp only [Py.ofExcept_ok, pure_bind, hcontent]
          exact ⟨exc, rfl⟩
      | ok content => exact absurd hcontent (h experiment content hloads)

end equations

section refinement

abbrev IndexReplica := Replica Body String EmbeddingColumns DateTime

-- Where a process stands when everything before `stored` has been upserted: it has the next
-- message but not yet its row, or the row is there and its offset not yet committed.
inductive Phase (env : Env) (modelName : String) (log : List Body) (stored : ℕ) :
    ℕ → Program sig (Except Exc Unit) → Prop where
  | waiting : Phase env modelName log stored stored (.ret (.ok ()))
  | failed (position : ℕ) (exc : Exc) : Phase env modelName log stored position (.ret (.error exc))
  | encoding {body : Body} {experiment : Json} {content : String}
      (hbody : log[stored]? = some body) (hloads : loads body = .ok experiment)
      (hcontent : canonicalExperimentText env experiment = .ok content) :
      Phase env modelName log stored (stored + 1)
        (.call (.encode content) (afterEncode env modelName experiment content))
  | storing {body : Body} {experimentId : String} {columns : EmbeddingColumns}
      (hbody : log[stored]? = some body)
      (hentry : entry env modelName body = some (experimentId, columns)) :
      Phase env modelName log stored (stored + 1)
        (.call (.execute experimentId columns) afterExecute)
  | committing : Phase env modelName log stored stored (.call .commit afterCommit)

-- The table as the replica sees it, without updated_at.
def settled (table : EmbeddingTable) (experimentId : String) :
    Option (EmbeddingColumns × DateTime) :=
  (table.get? experimentId).map fun row => (row.toEmbeddingColumns, row.createdAt)

theorem settled_upsert (table : EmbeddingTable) (experimentId : String)
    (columns : EmbeddingColumns) (now : DateTime) :
    settled (upsert table experimentId columns now) =
      Replica.put (settled table) experimentId columns now := by
  funext other
  unfold settled upsert
  rw [Dict.get?_set]
  by_cases hsame : other = experimentId
  · subst hsame
    rw [if_pos rfl, Replica.put_self]
    cases table.get? other with
    | none => rfl
    | some row => rfl
  · rw [if_neg hsame, Replica.put_of_ne hsame]

structure Refines (env : Env) (modelName : String) (labels : List Label) (index : Index)
    (replica : IndexReplica) : Prop where
  log : replica.log = index.log
  committed : replica.committed = index.committed
  table : replica.table = settled index.table
  written : ∀ offset ∈ replica.written, Executed env modelName index.log labels offset
  session : ∀ session, index.session = some session → session.modelName = modelName ∧
    Phase env modelName index.log replica.stored session.position session.rest

theorem Executed.mono {log more : List Body} {labels : List Label} {label : Label} {offset : ℕ}
    (h : Executed env modelName log labels offset) :
    Executed env modelName (log ++ more) (labels ++ [label]) offset := by
  obtain ⟨body, experimentId, columns, outcome, now, hbody, hentry, hstored, hmem⟩ := h
  have hlt : offset < log.length := (List.getElem?_eq_some_iff.mp hbody).1
  exact ⟨body, experimentId, columns, outcome, now,
    (List.getElem?_append_left hlt).trans hbody, hentry, hstored, List.mem_append_left _ hmem⟩

theorem Phase.mono {log more : List Body} {stored position : ℕ}
    {rest : Program sig (Except Exc Unit)} (h : Phase env modelName log stored position rest) :
    Phase env modelName (log ++ more) stored position rest := by
  have hget : ∀ {body}, log[stored]? = some body → (log ++ more)[stored]? = some body := by
    intro body hbody
    exact (List.getElem?_append_left (List.getElem?_eq_some_iff.mp hbody).1).trans hbody
  cases h with
  | waiting => exact .waiting
  | failed position exc => exact .failed position exc
  | encoding hbody hloads hcontent => exact .encoding (hget hbody) hloads hcontent
  | storing hbody hentry => exact .storing (hget hbody) hentry
  | committing => exact .committing

variable {labels : List Label} {index next : Index} {replica : IndexReplica} {label : Label}

-- A step that touches neither the log, nor the table, nor the offset.
theorem Refines.quiet (h : Refines env modelName labels index replica)
    {session : Option Session}
    (hsession : ∀ current, session = some current → current.modelName = modelName ∧
      Phase env modelName index.log replica.stored current.position current.rest) :
    Refines env modelName (labels ++ [label]) { index with session := session } replica := by
  refine ⟨h.log, h.committed, h.table, fun offset hmem => ?_, hsession⟩
  have hexecuted := @Executed.mono _ _ _ [] _ label _ (h.written offset hmem)
  rwa [List.append_nil] at hexecuted

-- Delivering the next message puts the process before its encoding, or ends it.
theorem phase_deliver {log : List Body} {stored : ℕ} {body : Body}
    (hbody : log[stored]? = some body) :
    Phase env modelName log stored (stored + 1) (indexMessage env modelName body).run := by
  by_cases h : ∃ experiment content, loads body = .ok experiment ∧
      canonicalExperimentText env experiment = .ok content
  · obtain ⟨experiment, content, hloads, hcontent⟩ := h
    rw [indexMessage_eq hloads hcontent]
    exact .encoding hbody hloads hcontent
  · obtain ⟨exc, hexc⟩ := @indexMessage_error env modelName body
      fun experiment content hloads hcontent => h ⟨experiment, content, hloads, hcontent⟩
    rw [hexc]
    exact .failed _ _

theorem entry_eq {body : Body} {experiment : Json} {content : String}
    {row : String × EmbeddingColumns} (hloads : loads body = .ok experiment)
    (hcontent : canonicalExperimentText env experiment = .ok content)
    (hstatement : statement env experiment content (env.encode modelName content) modelName =
      .ok row) : entry env modelName body = some row := by
  unfold entry
  rw [hloads]
  change ((canonicalExperimentText env experiment) >>= _).toOption = _
  rw [hcontent]
  exact congrArg Except.toOption hstatement

-- Answered, the encoder leaves a row to be stored, or ends the process.
theorem phase_encode {log : List Body} {stored : ℕ} {body : Body} {experiment : Json}
    {content : String} (hbody : log[stored]? = some body) (hloads : loads body = .ok experiment)
    (hcontent : canonicalExperimentText env experiment = .ok content)
    {answer : Except Exc (List ℚ)} (hanswer : Answers env modelName ⟨.encode content, answer⟩) :
    Phase env modelName log stored (stored + 1)
      (afterEncode env modelName experiment content answer) := by
  cases answer with
  | error exc => exact .failed _ _
  | ok embedding =>
      obtain rfl := hanswer _ embedding rfl
      simp only [afterEncode]
      split
      · exact .failed _ _
      · rename_i hstatement
        exact .storing hbody (entry_eq hloads hcontent hstatement)

theorem phase_execute_raised {log : List Body} {stored position : ℕ} {answer : Outcome}
    (hraised : answer ≠ .returned) :
    Phase env modelName log stored position (afterExecute answer) := by
  cases answer with
  | returned => exact absurd rfl hraised
  | raised exc stored => exact .failed _ _

theorem phase_commit (log : List Body) (stored : ℕ) (answer : Outcome) :
    Phase env modelName log stored stored (afterCommit answer) := by
  cases answer with
  | returned => exact .waiting
  | raised exc stored => exact .failed _ _

theorem Refines.resume (h : Refines env modelName labels index replica) {position : ℕ}
    {rest : Program sig (Except Exc Unit)}
    (hphase : Phase env modelName index.log replica.stored position rest) :
    Refines env modelName (labels ++ [label])
      { index with session := some ⟨modelName, position, rest⟩ } replica := by
  refine h.quiet fun current hcurrent => ?_
  obtain rfl := Option.some.inj hcurrent
  exact ⟨rfl, hphase⟩

-- The row of the next message is in the table, whether or not the process knows.
theorem Refines.upserted (h : Refines env modelName labels index replica) {body : Body}
    {experimentId : String} {columns : EmbeddingColumns} {answer : Outcome} {now : DateTime}
    (hbody : index.log[replica.stored]? = some body)
    (hentry : entry env modelName body = some (experimentId, columns))
    (hstored : Outcome.stored answer = true) :
    Refines env modelName
      (labels ++ [.answer (replica.stored + 1) ⟨.execute experimentId columns, answer⟩ now])
      { index with
        table := upsert index.table experimentId columns now
        session := some ⟨modelName, replica.stored + 1, afterExecute answer⟩ }
      (replica.write experimentId columns now) := by
  refine ⟨h.log, h.committed, ?_, ?_, ?_⟩
  · rw [settled_upsert, ← h.table]
    rfl
  · intro offset hmem
    rcases List.mem_append.mp hmem with hold | hnew
    · have hexecuted := @Executed.mono _ _ _ [] _
        (.answer (replica.stored + 1) ⟨.execute experimentId columns, answer⟩ now) _
        (h.written offset hold)
      rwa [List.append_nil] at hexecuted
    · obtain rfl := List.mem_singleton.mp hnew
      exact ⟨body, experimentId, columns, answer, now, hbody, hentry, hstored,
        List.mem_append_right _ List.mem_cons_self⟩
  · intro current hcurrent
    obtain rfl := Option.some.inj hcurrent
    refine ⟨rfl, ?_⟩
    by_cases hreturned : answer = .returned
    · rw [hreturned]
      exact .committing
    · exact phase_execute_raised hreturned

-- One case for each await that may be answered.
theorem Refines.answer (h : Refines env modelName labels index replica) {position : ℕ} {op : Effect}
    {rest : op.Ans → Program sig (Except Exc Unit)} {answer : op.Ans} {now : DateTime}
    (hsession : index.session = some ⟨modelName, position, .call op rest⟩)
    (hanswer : Answers env modelName ⟨op, answer⟩) :
    ∃ later, Relation.ReflTransGen (Replica.Step (entry env modelName)) replica later ∧
      Refines env modelName (labels ++ [.answer position ⟨op, answer⟩ now])
        { index.after position now op answer with
          session := some ⟨modelName, position, rest answer⟩ } later := by
  have hphase := (h.session _ hsession).2
  simp only at hphase
  cases hphase with
  | encoding hbody hloads hcontent =>
      exact ⟨replica, .refl, h.resume (phase_encode hbody hloads hcontent hanswer)⟩
  | @storing body experimentId columns hbody hentry =>
      cases hstored : Outcome.stored answer with
      | true =>
          have hafter : index.after (replica.stored + 1) now (.execute experimentId columns) answer =
              { index with table := upsert index.table experimentId columns now } := if_pos hstored
          rw [hafter]
          exact ⟨replica.write experimentId columns now, .single (.write now (h.log ▸ hbody) hentry),
            h.upserted hbody hentry hstored⟩
      | false =>
          have hafter : index.after (replica.stored + 1) now (.execute experimentId columns) answer =
              index := if_neg (by rw [hstored]; exact Bool.false_ne_true)
          rw [hafter]
          refine ⟨replica, .refl, h.resume (phase_execute_raised fun hreturned => ?_)⟩
          rw [hreturned] at hstored
          cases hstored
  | committing =>
      have hquiet := @Refines.resume _ _ _ _ _
        (.answer replica.stored ⟨.commit, answer⟩ now) h _ _ (phase_commit _ _ answer)
      cases hstored : Outcome.stored answer with
      | true =>
          have hafter : index.after replica.stored now .commit answer =
              { index with committed := replica.stored } := if_pos hstored
          rw [hafter]
          exact ⟨{ replica with committed := replica.stored }, .single (.commit (le_refl _)),
            { hquiet with committed := rfl }⟩
      | false =>
          have hafter : index.after replica.stored now .commit answer = index :=
            if_neg (by rw [hstored]; exact Bool.false_ne_true)
          rw [hafter]
          exact ⟨replica, .refl, hquiet⟩

-- Every step of the indexer is a step of the replica, or none.
theorem Refines.step (h : Refines env modelName labels index replica)
    (hstep : Step env index label next)
    (hmodel : ∀ other, label = .start other → other = modelName) :
    ∃ later, Relation.ReflTransGen (Replica.Step (entry env modelName)) replica later ∧
      Refines env modelName (labels ++ [label]) next later := by
  cases hstep with
  | produce body =>
      refine ⟨replica.append body, .single (.append body), ?_, h.committed, h.table, ?_, ?_⟩
      · exact congrArg (· ++ [body]) h.log
      · exact fun offset hmem => (h.written offset hmem).mono
      · intro session hsession
        obtain ⟨hname, hphase⟩ := h.session session hsession
        exact ⟨hname, hphase.mono⟩
  | start other hnone =>
      obtain rfl := hmodel other rfl
      refine ⟨{ replica with stored := replica.committed }, .single .restart, ?_⟩
      have hquiet := @Refines.quiet _ _ _ _ { replica with stored := replica.committed }
        (.start other) ⟨h.log, h.committed, h.table, h.written, fun session hsession => by
          rw [hnone] at hsession; cases hsession⟩
      refine hquiet fun current hcurrent => ?_
      obtain rfl := Option.some.inj hcurrent
      refine ⟨rfl, ?_⟩
      rw [← h.committed]
      exact .waiting
  | deliver hsession hbody =>
      obtain ⟨rfl, hphase⟩ := h.session _ hsession
      refine ⟨replica, .refl, h.quiet fun current hcurrent => ?_⟩
      obtain rfl := Option.some.inj hcurrent
      refine ⟨rfl, ?_⟩
      simp only at hphase
      cases hphase with
      | waiting => exact phase_deliver hbody
  | answer answer now hsession hanswer =>
      obtain ⟨rfl, -⟩ := h.session _ hsession
      exact h.answer hsession hanswer
  | exit hsession => exact ⟨replica, .refl, h.quiet fun _ hcurrent => nomatch hcurrent⟩
  | crash => exact ⟨replica, .refl, h.quiet fun _ hcurrent => nomatch hcurrent⟩

theorem refines_run (run : Run (Step env) {} labels index)
    (hmodel : ∀ other, .start other ∈ labels → other = modelName) :
    ∃ replica : IndexReplica,
      Relation.ReflTransGen (Replica.Step (entry env modelName)) {} replica ∧
        Refines env modelName labels index replica := by
  induction run with
  | start =>
      refine ⟨{}, .refl, rfl, rfl, ?_, fun offset hmem => ?_, fun session hsession => ?_⟩
      · funext experimentId
        rfl
      · cases hmem
      · cases hsession
  | step _ last ih =>
      obtain ⟨replica, hreach, hrefines⟩ := ih fun other hmem =>
        hmodel other (List.mem_append_left _ hmem)
      obtain ⟨later, hlater, hnext⟩ := hrefines.step last fun other hlabel =>
        hmodel other (List.mem_append_right _ (hlabel ▸ List.mem_cons_self))
      exact ⟨later, hreach.trans hlater, hnext⟩

theorem settled_upsertAll (times : ℕ → DateTime) (log : List Body) :
    settled (upsertAll env modelName times log) = Replica.replay (entry env modelName) times log := by
  have hempty : settled ∅ = fun _ => none := rfl
  unfold upsertAll Replica.replay
  rw [← hempty]
  refine (List.foldl_hom settled fun table message => ?_).symm
  cases entry env modelName message.1 with
  | none => rfl
  | some row => exact (settled_upsert table row.1 row.2 (times message.2)).symm

-- The index converges to the log, whatever crashes and restarts come in between.
theorem index_converges (run : Run (Step env) {} labels index)
    (hmodel : ∀ other, .start other ∈ labels → other = modelName) :
    (∀ offset < index.committed, Executed env modelName index.log labels offset) ∧
      (index.committed = index.log.length →
        (∀ body ∈ index.log, (entry env modelName body).isSome = true) ∧
          ∃ times, settled index.table = settled (upsertAll env modelName times index.log)) := by
  obtain ⟨replica, hreach, hrefines⟩ := refines_run run hmodel
  refine ⟨fun offset hoffset => ?_, fun hend => ?_⟩
  · exact hrefines.written offset (Replica.covered hreach offset (hrefines.committed ▸ hoffset))
  · obtain ⟨hdecoded, times, htable⟩ := Replica.converges hreach (by
      rw [hrefines.committed, hrefines.log, hend])
    rw [hrefines.log] at hdecoded htable
    exact ⟨hdecoded, times, by rw [← hrefines.table, htable, settled_upsertAll]⟩

section progress

variable {body : Body} {experiment : Json} {content experimentId : String}
  {columns : EmbeddingColumns}

-- A process that is not disturbed upserts the message after the committed offset.
theorem run_upserts (hnone : index.session = none)
    (hbody : index.log[index.committed]? = some body) (hloads : loads body = .ok experiment)
    (hcontent : canonicalExperimentText env experiment = .ok content)
    (hstatement : statement env experiment content (env.encode modelName content) modelName =
      .ok (experimentId, columns)) (now : DateTime) :
    Run (Step env) index [.start modelName, .deliver,
        .answer (index.committed + 1) ⟨.encode content, .ok (env.encode modelName content)⟩ now,
        .answer (index.committed + 1) ⟨.execute experimentId columns, .returned⟩ now]
      { index with
        table := upsert index.table experimentId columns now
        session := some ⟨modelName, index.committed + 1, .call .commit afterCommit⟩ } := by
  have hencode : Answers env modelName
      ⟨.encode content, .ok (env.encode modelName content)⟩ := by
    intro other embedding heq
    cases heq
    rfl
  have hexecute : Answers env modelName ⟨.execute experimentId columns, .returned⟩ := by
    intro other embedding heq
    cases heq
  have hafter : afterEncode env modelName experiment content
      (.ok (env.encode modelName content)) = .call (.execute experimentId columns) afterExecute := by
    simp only [afterEncode, hstatement]
  refine .cons (.start modelName hnone) (.cons (.deliver rfl hbody) ?_)
  rw [indexMessage_eq hloads hcontent]
  refine .cons (.answer _ now rfl hencode) ?_
  rw [hafter]
  exact .single (@Step.answer env _ modelName (index.committed + 1)
    (.execute experimentId columns) afterExecute .returned now rfl hexecute)

-- And then commits its offset.
theorem run_indexes (hnone : index.session = none)
    (hbody : index.log[index.committed]? = some body) (hloads : loads body = .ok experiment)
    (hcontent : canonicalExperimentText env experiment = .ok content)
    (hstatement : statement env experiment content (env.encode modelName content) modelName =
      .ok (experimentId, columns)) (now : DateTime) :
    Run (Step env) index [.start modelName, .deliver,
        .answer (index.committed + 1) ⟨.encode content, .ok (env.encode modelName content)⟩ now,
        .answer (index.committed + 1) ⟨.execute experimentId columns, .returned⟩ now,
        .answer (index.committed + 1) ⟨.commit, .returned⟩ now]
      { index with
        table := upsert index.table experimentId columns now
        committed := index.committed + 1
        session := some ⟨modelName, index.committed + 1, .ret (.ok ())⟩ } := by
  have hcommit : Answers env modelName ⟨.commit, .returned⟩ := by
    intro other embedding heq
    cases heq
  exact (run_upserts hnone hbody hloads hcontent hstatement now).append
    (.single (@Step.answer env _ modelName (index.committed + 1) .commit afterCommit .returned now
      rfl hcommit))

end progress

-- One message, upserted before and after a crash.
theorem index_converges_crash : ∃ (env : Env) (labels : List Label) (index : Index),
    .crash ∈ labels ∧ index.committed = 1 ∧ index.log.length = 1 ∧
      Executed env "model" index.log labels 0 ∧
        ∃ times, settled index.table = settled (upsertAll env "model" times index.log) := by
  let env : Env := ⟨fun _ => "", fun _ => "", fun _ => .ok .null, fun _ => "", fun _ _ => []⟩
  let experiment : Json := .obj [("id", .str "a"), ("algorithm", .str "qpe")]
  obtain ⟨content, hcontent⟩ : ∃ content, canonicalExperimentText env experiment = .ok content :=
    ⟨_, rfl⟩
  obtain ⟨row, hrow⟩ : ∃ row, statement env experiment content [] "model" = .ok row := ⟨_, rfl⟩
  have hloads : loads (.json experiment) = .ok experiment := rfl
  have hproduced : Run (Step env) {} [.produce (.json experiment)]
      { log := [.json experiment] } := .single (.produce _)
  have hupserted := hproduced.append (run_upserts rfl rfl hloads hcontent hrow 0)
  have hcrashed := hupserted.append (.single .crash)
  have hindexed := hcrashed.append (run_indexes rfl rfl hloads hcontent hrow 1)
  obtain ⟨hexecuted, hconverged⟩ := @index_converges env "model" _ _ hindexed (by simp)
  exact ⟨env, _, _, by simp, rfl, rfl, hexecuted 0 Nat.zero_lt_one, (hconverged rfl).2⟩

end refinement

end QuantumPlatform.Indexer
