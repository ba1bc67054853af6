import QuantumPlatform.Platform.Telemetry
import QuantumPlatform.Stream.Consumer.Theorems

namespace QuantumPlatform.Telemetry

open Process Python Stream.Consumer

section rows

variable {env : Env} {isoformat : Int → String}

-- What publish_vqe_history sends for one iteration.
def payload (experimentId : Json) (time : Int) (log : Orchestrator.VQEIterationLog) : Json :=
  .obj (("experiment_id", experimentId) :: log.asdict ++ [("timestamp", .int time)])

theorem reads_message (experimentId : Json) (time : Int) (log : Orchestrator.VQEIterationLog) :
    (message isoformat (payload experimentId time log)).reads = .ok none := rfl

-- The row has what the iteration has, under the time the orchestrator wrote.
theorem row_message {time : Int} (htime : env.fromisoformat (isoformat time) = .ok time)
    (experimentId : Json) (log : Orchestrator.VQEIterationLog) :
    (message isoformat (payload experimentId time log)).row env =
      .ok (iterationRow experimentId time log) := by
  have hread : fromisoformat env (.str (isoformat time)) = .ok time := by
    simp only [fromisoformat, htime]
  change (do
    let timestamp ← fromisoformat env (.str (isoformat time))
    return (⟨.vqeIterationMetrics, timestamp, _⟩ : Insert)) = _
  rw [hread]
  rfl

end rows

section sending

variable {experimentId : Json} {history : List Orchestrator.VQEIterationLog}

-- What is left of publish_vqe_history after it has sent an iteration.
def afterSend (experimentId : Json) (time : Int) (left : List Orchestrator.VQEIterationLog) :
    Outcome → Program Orchestrator.sig (Except Exc Unit)
  | .returned => (Orchestrator.publishVqeHistory.send experimentId time left).run
  | .raised exc _ => if exc.isException then .ret (.ok ()) else .ret (.error exc)

theorem send_cons (time : Int) (log : Orchestrator.VQEIterationLog)
    (left : List Orchestrator.VQEIterationLog) :
    (Orchestrator.publishVqeHistory.send experimentId time (log :: left)).run =
      .call (.kafkaSend Orchestrator.VQE_METRICS_TOPIC (payload experimentId time log))
        (afterSend experimentId time left) := by
  refine congrArg (@Program.call Orchestrator.sig (Except Exc Unit) _) (funext fun outcome => ?_)
  cases outcome with
  | returned => rfl
  | raised exc stored =>
      simp only [afterSend]
      by_cases hexc : exc.isException = true
      · rw [if_pos hexc]
        change Program.bind (Program.bind (Program.ret (Except.error exc)) _) _ = _
        simp only [Program.ret_bind, hexc, if_true]
        rfl
      · rw [if_neg hexc]
        change Program.bind (Program.bind (Program.ret (Except.error exc)) _) _ = _
        simp only [Program.ret_bind, hexc]
        rfl

theorem publish_run (experimentId : Json) (history : List Orchestrator.VQEIterationLog) :
    (Orchestrator.publishVqeHistory experimentId history).run = .call .utcnow fun time =>
      (Orchestrator.publishVqeHistory.send experimentId time history).run := rfl

-- A call has sent the first iterations of its history, all with one time of the clock, and goes
-- on with the next one, unless it is over. It ends early only where a send may have failed.
def Sending (lossy : Prop) (clock : Int → Prop) (experimentId : Json) (history : List Orchestrator.VQEIterationLog)
    (rest : Program Orchestrator.sig (Except Exc Unit)) (sent : List Json) : Prop :=
  sent = [] ∧ rest = (Orchestrator.publishVqeHistory experimentId history).run ∨
  ∃ time done left, clock time ∧ history = done ++ left ∧
    sent = done.map (payload experimentId time) ∧
    (rest = (Orchestrator.publishVqeHistory.send experimentId time left).run ∨
      lossy ∧ ∃ result, rest = .ret result)

-- A send that fails, or whose answer is lost.
def fails (event : Event Orchestrator.sig) : Prop :=
  ∃ topic payload exc stored, event = ⟨.kafkaSend topic payload, .raised exc stored⟩

variable {lossy : Prop} {clock : Int → Prop}

theorem Sending.step {op : Orchestrator.Effect}
    {next : op.Ans → Program Orchestrator.sig (Except Exc Unit)} {sent : List Json}
    (h : Sending lossy clock experimentId history (.call op next) sent) (publication : Nat)
    (answer : op.Ans) (hlossy : fails ⟨op, answer⟩ → lossy)
    (hclock : ∀ time, (⟨op, answer⟩ : Event Orchestrator.sig) = ⟨.utcnow, time⟩ → clock time) :
    Sending lossy clock experimentId history (next answer)
      (sent ++ (record publication op answer).map Prod.snd) := by
  rcases h with ⟨rfl, hstart⟩ | ⟨time, done, left, htime, rfl, rfl, hrest | ⟨-, result, hrest⟩⟩
  · obtain ⟨rfl, hnext⟩ := Program.call.inj (hstart.trans (publish_run _ _))
    obtain rfl := eq_of_heq hnext
    exact .inr ⟨answer, [], history, hclock answer rfl, rfl, rfl, .inl rfl⟩
  · cases left with
    | nil => cases hrest
    | cons log left =>
        rw [send_cons] at hrest
        obtain ⟨rfl, hnext⟩ := Program.call.inj hrest
        obtain rfl := eq_of_heq hnext
        have hrecord : (done.map (payload experimentId time) ++ [payload experimentId time log]) =
            (done ++ [log]).map (payload experimentId time) := by simp
        have hsplit : done ++ log :: left = done ++ [log] ++ left := by simp
        cases answer with
        | returned => exact .inr ⟨time, done ++ [log], left, htime, hsplit, hrecord, .inl rfl⟩
        | raised exc stored =>
            have hfails := hlossy ⟨_, _, exc, stored, rfl⟩
            have hover : ∃ result, afterSend experimentId time left (.raised exc stored) =
                .ret result := by
              simp only [afterSend]
              split_ifs <;> exact ⟨_, rfl⟩
            cases stored with
            | true =>
                exact .inr ⟨time, done ++ [log], left, htime, hsplit, hrecord, .inr ⟨hfails, hover⟩⟩
            | false =>
                refine .inr ⟨time, done, log :: left, htime, rfl, ?_, .inr ⟨hfails, hover⟩⟩
                simp [record, Outcome.stored]
  · cases hrest

end sending

section projection

-- The records that a call has sent.
def sentBy (publication : Nat) (log : List (Nat × Json)) : List Json :=
  (log.filter fun entry => decide (entry.1 = publication)).map Prod.snd

theorem sentBy_append (publication : Nat) (first second : List (Nat × Json)) :
    sentBy publication (first ++ second) = sentBy publication first ++ sentBy publication second := by
  simp [sentBy]

theorem sentBy_record (publication : Nat) (op : Orchestrator.Effect) (answer : op.Ans) :
    sentBy publication (record publication op answer) =
      (record publication op answer).map Prod.snd := by
  unfold record sentBy
  split
  · split_ifs <;> simp
  · rfl

theorem sentBy_other {publication other : Nat} (hne : other ≠ publication)
    (op : Orchestrator.Effect) (answer : op.Ans) : sentBy other (record publication op answer) = [] := by
  unfold record sentBy
  split
  · split_ifs <;> simp [Ne.symm hne]
  · rfl

theorem mem_record {publication : Nat} {op : Orchestrator.Effect} {answer : op.Ans}
    {entry : Nat × Json} (hmem : entry ∈ record publication op answer) : entry.1 = publication := by
  unfold record at hmem
  split at hmem
  · split_ifs at hmem
    · rw [List.mem_singleton.mp hmem]
    · cases hmem
  · cases hmem

theorem taken_concat (events : List (Event sig)) (event : Event sig) :
    taken (events ++ [event]) = taken events ++ taken [event] := by
  simp [taken]

-- An answer hands out one message at most.
theorem taken_single (event : Event sig) : taken [event] = [] ∨ ∃ message, taken [event] = [message] := by
  cases hevent : handing event with
  | none => exact .inl (by simp [taken, handed, hevent])
  | some message =>
      by_cases htopic : message.topic = VQE_METRICS_TOPIC
      · exact .inr ⟨message, by simp [taken, handed, hevent, htopic]⟩
      · exact .inl (by simp [taken, handed, hevent, htopic])

end projection

section invariant

variable {lossy : Prop} {clock : Nat → Int → Prop} {env : Env} {fuel : Nat}
  {isoformat : Int → String} {pipeline : Pipeline}

-- Something is lost or read from the middle on: a send or an insert fails, or the consumer
-- starts behind the first record.
def Label.Lossy : Label → Prop
  | .publish _ _ => False
  | .perform _ event => fails event
  | .seek position => position ≠ 0
  | .consume event => ∃ insert exc stored, event = ⟨.execute insert, .raised exc stored⟩

structure Sound (lossy : Prop) (clock : Nat → Int → Prop) (env : Env) (fuel : Nat)
    (isoformat : Int → String) (pipeline : Pipeline) : Prop where
  numbered : ∀ entry ∈ pipeline.log, entry.1 < pipeline.publications.length
  sending : ∀ i publication, pipeline.publications[i]? = some publication →
    Sending lossy (clock i) publication.experimentId publication.history publication.rest
      (sentBy i pipeline.log)
  traced : (consumeCalibrationResults env fuel).run.Trace pipeline.events pipeline.consumer
  reading : ∃ before read unread, pipeline.log = before ++ read ++ unread ∧
    pipeline.position = before.length + read.length ∧
    taken pipeline.events = read.map (fun entry => message isoformat entry.2) ∧
    (lossy ∨ before = [])
  inserted : lossy ∨ ∀ event ∈ pipeline.events, ∀ insert exc stored,
    event ≠ ⟨.execute insert, .raised exc stored⟩

def initial (env : Env) (fuel : Nat) : Pipeline :=
  { consumer := (consumeCalibrationResults env fuel).run }

theorem Sound.initially : Sound lossy clock env fuel isoformat (initial env fuel) where
  numbered entry hmem := by cases hmem
  sending i publication hpublication := by cases hpublication
  traced := .stop _
  reading := ⟨[], [], [], rfl, rfl, rfl, .inr rfl⟩
  inserted := .inr fun event hmem => by cases hmem

theorem Sound.publish (h : Sound lossy clock env fuel isoformat pipeline) (experimentId : Json)
    (history : List Orchestrator.VQEIterationLog) :
    Sound lossy clock env fuel isoformat { pipeline with
      publications := pipeline.publications ++ [⟨experimentId, history,
        (Orchestrator.publishVqeHistory experimentId history).run⟩] } where
  numbered entry hmem := by
    have hlt := h.numbered entry hmem
    simp only [List.length_append, List.length_singleton]
    omega
  sending i publication hpublication := by
    rcases Nat.lt_trichotomy i pipeline.publications.length with hlt | rfl | hgt
    · rw [List.getElem?_append_left hlt] at hpublication
      exact h.sending i publication hpublication
    · simp only [List.getElem?_concat_length] at hpublication
      obtain rfl := Option.some.inj hpublication
      have hnone : sentBy pipeline.publications.length pipeline.log = [] := by
        simp only [sentBy, List.map_eq_nil_iff, List.filter_eq_nil_iff, decide_eq_true_eq]
        exact fun entry hmem => (h.numbered entry hmem).ne
      exact .inl ⟨hnone, rfl⟩
    · rw [List.getElem?_eq_none (by simp; omega)] at hpublication
      cases hpublication
  traced := h.traced
  reading := h.reading
  inserted := h.inserted

theorem Sound.perform (h : Sound lossy clock env fuel isoformat pipeline) {publication : Nat}
    {experimentId : Json} {history : List Orchestrator.VQEIterationLog} {op : Orchestrator.Effect}
    {next : op.Ans → Program Orchestrator.sig (Except Exc Unit)} {answer : op.Ans}
    (running : pipeline.publications[publication]? = some ⟨experimentId, history, .call op next⟩)
    (hlossy : fails ⟨op, answer⟩ → lossy)
    (hclock : ∀ time, (⟨op, answer⟩ : Event Orchestrator.sig) = ⟨.utcnow, time⟩ →
      clock publication time) :
    Sound lossy clock env fuel isoformat { pipeline with
      publications := pipeline.publications.set publication ⟨experimentId, history, next answer⟩,
      log := pipeline.log ++ record publication op answer } where
  numbered entry hmem := by
    rw [List.length_set]
    rcases List.mem_append.mp hmem with hold | hnew
    · exact h.numbered entry hold
    · rw [mem_record hnew]
      exact (List.getElem?_eq_some_iff.mp running).1
  sending i other hother := by
    rw [sentBy_append]
    by_cases hi : i = publication
    · subst hi
      rw [List.getElem?_set_self (List.getElem?_eq_some_iff.mp running).1] at hother
      obtain rfl := Option.some.inj hother
      rw [sentBy_record]
      exact (h.sending i _ running).step i answer hlossy hclock
    · rw [List.getElem?_set_ne (Ne.symm hi)] at hother
      rw [sentBy_other hi, List.append_nil]
      exact h.sending i other hother
  traced := h.traced
  reading := by
    obtain ⟨before, read, unread, hlog, hposition, htaken, hbefore⟩ := h.reading
    refine ⟨before, read, unread ++ record publication op answer, ?_, hposition, htaken, hbefore⟩
    simp only [hlog, List.append_assoc]
  inserted := h.inserted

theorem Sound.seek (h : Sound lossy clock env fuel isoformat pipeline) {position : Nat}
    (started : taken pipeline.events = []) (bounded : position ≤ pipeline.log.length)
    (hlossy : position ≠ 0 → lossy) :
    Sound lossy clock env fuel isoformat { pipeline with position := position } where
  numbered := h.numbered
  sending := h.sending
  traced := h.traced
  reading := by
    refine ⟨pipeline.log.take position, [], pipeline.log.drop position, by simp, ?_, started, ?_⟩
    · simp [bounded]
    · by_cases hzero : position = 0
      · exact .inr (by rw [hzero, List.take_zero])
      · exact .inl (hlossy hzero)
  inserted := h.inserted

theorem Sound.consume (h : Sound lossy clock env fuel isoformat pipeline) {op : Effect}
    {next : op.Ans → Program sig (Except Exc Unit)} {answer : op.Ans}
    (running : pipeline.consumer = .call op next)
    (hread : ∀ handing ∈ taken [⟨op, answer⟩], ∃ entry,
      pipeline.log[pipeline.position]? = some entry ∧ handing = message isoformat entry.2)
    (hlossy : (Label.consume ⟨op, answer⟩).Lossy → lossy) :
    Sound lossy clock env fuel isoformat { pipeline with
      position := pipeline.position + (taken [⟨op, answer⟩]).length,
      events := pipeline.events ++ [⟨op, answer⟩],
      consumer := next answer } where
  numbered := h.numbered
  sending := h.sending
  traced := by
    have htraced := h.traced
    rw [running] at htraced
    exact htraced.append (@Program.Trace.step sig _ op next answer _ _ (.stop _))
  reading := by
    obtain ⟨before, read, unread, hlog, hposition, htaken, hbefore⟩ := h.reading
    rcases taken_single ⟨op, answer⟩ with hnone | ⟨handing, hone⟩
    · refine ⟨before, read, unread, hlog, ?_, ?_, hbefore⟩
      · simp [hnone, hposition]
      · rw [taken_concat, hnone, List.append_nil, htaken]
    · obtain ⟨entry, hentry, rfl⟩ := hread handing (by rw [hone]; exact List.mem_singleton_self _)
      obtain ⟨rest, rfl⟩ : ∃ rest, unread = entry :: rest := by
        rw [hlog, hposition, ← List.length_append, List.getElem?_append_right (le_refl _),
          Nat.sub_self] at hentry
        cases unread with
        | nil => cases hentry
        | cons first rest =>
            obtain rfl := Option.some.inj hentry
            exact ⟨rest, rfl⟩
      refine ⟨before, read ++ [entry], rest, ?_, ?_, ?_, hbefore⟩
      · simp [hlog]
      · simp only [hone, hposition, List.length_append, List.length_singleton]
        omega
      · rw [taken_concat, hone, htaken, List.map_append]
        rfl
  inserted := by
    by_cases hthis : (Label.consume ⟨op, answer⟩).Lossy
    · exact .inl (hlossy hthis)
    · refine h.inserted.imp_right fun hstored event hmem insert exc stored hevent => ?_
      rcases List.mem_append.mp hmem with hold | hnew
      · exact hstored event hold insert exc stored hevent
      · rw [List.mem_singleton.mp hnew] at hevent
        exact hthis ⟨insert, exc, stored, hevent⟩

-- The orchestrators read the clock.
def Label.Clocked (clock : Int → Prop) (label : Label) : Prop :=
  ∀ publication time, label = .perform publication ⟨.utcnow, time⟩ → clock time

-- The call has read this time, at some point of the run.
def Reads (labels : List Label) (clock : Int → Prop) (publication : Nat) (time : Int) : Prop :=
  .perform publication ⟨.utcnow, time⟩ ∈ labels ∧ clock time

theorem Sound.step {label : Label} {later : Pipeline}
    (h : Sound lossy clock env fuel isoformat pipeline) (hlossy : label.Lossy → lossy)
    (hclock : ∀ publication time, label = .perform publication ⟨.utcnow, time⟩ →
      clock publication time)
    (last : Step isoformat pipeline label later) :
    Sound lossy clock env fuel isoformat later := by
  cases last with
  | publish experimentId history => exact h.publish experimentId history
  | perform answer running =>
      exact h.perform running hlossy fun time hevent => hclock _ time (congrArg _ hevent)
  | seek started bounded => exact h.seek started bounded hlossy
  | consume answer running read => exact h.consume running read hlossy

theorem Sound.run {labels : List Label} {clock : Int → Prop}
    (hlossy : ∀ label ∈ labels, label.Lossy → lossy)
    (hclock : ∀ label ∈ labels, label.Clocked clock)
    (run : Run (Step isoformat) (initial env fuel) labels pipeline) :
    Sound lossy (Reads labels clock) env fuel isoformat pipeline := by
  have hstep : ∀ before label after, Sound lossy (Reads labels clock) env fuel isoformat before →
      label ∈ labels → Step isoformat before label after →
      Sound lossy (Reads labels clock) env fuel isoformat after := by
    intro before label after hsound hmem last
    refine hsound.step (hlossy label hmem) (fun publication time hlabel => ?_) last
    exact ⟨hlabel ▸ hmem, hclock label hmem publication time hlabel⟩
  exact run.invariant hstep (fun _ hmem => hmem) .initially

end invariant

section table

variable {env : Env} {isoformat : Int → String}

def iterationInsert : Emission → Option Insert
  | .insert insert => if insert.table = .vqeIterationMetrics then some insert else none
  | .alert _ _ => none

-- The row that a message of the topic leads to.
def asked (env : Env) (message : Stream.Consumer.Message) : Option Insert :=
  match message.reads with
  | .error _ => none
  | .ok _ => (message.row env).toOption

theorem insertion_table {table : Hypertable} {columns : List Column} {payload : Json}
    {insert : Insert} (h : insertion env table columns payload = .ok insert) :
    insert.table = table := by
  obtain ⟨timestamp, -, h⟩ := bind_eq_ok.mp h
  obtain ⟨arguments, -, h⟩ := bind_eq_ok.mp h
  rw [← Except.ok.inj h]

-- Only this topic has rows for the table.
theorem row_table {message : Stream.Consumer.Message} {insert : Insert}
    (h : message.row env = .ok insert) :
    insert.table = .vqeIterationMetrics ↔ message.topic = VQE_METRICS_TOPIC := by
  obtain ⟨payload, -, h⟩ := bind_eq_ok.mp h
  split_ifs at h with hmetrics hwindow
  · exact iff_of_true (insertion_table h) hmetrics
  · exact iff_of_false (by rw [insertion_table h]; decide) hmetrics
  · exact iff_of_false (by rw [insertion_table h]; decide) hmetrics

theorem inserts_iterations (message : Stream.Consumer.Message) :
    (inserts env message).filterMap iterationInsert =
      if message.topic = VQE_METRICS_TOPIC then (message.row env).toOption.toList else [] := by
  unfold inserts
  cases hrow : message.row env with
  | error exc => simp [Except.toOption]
  | ok insert =>
      have htable := row_table hrow
      by_cases htopic : message.topic = VQE_METRICS_TOPIC
      · simp [iterationInsert, htable.mpr htopic, htopic, Except.toOption]
      · simp [iterationInsert, mt htable.mp htopic, htopic]

theorem expectedOf_iterations (seen : List Stream.Consumer.Message)
    (message : Stream.Consumer.Message) :
    (expectedOf env seen message).filterMap iterationInsert =
      if message.topic = VQE_METRICS_TOPIC then (asked env message).toList else [] := by
  unfold expectedOf asked
  cases message.reads with
  | error exc => simp
  | ok reading =>
      cases reading with
      | none => exact inserts_iterations message
      | some sample =>
          have halerts : (alerts sample.1 (seen ++ [message])).filterMap iterationInsert = [] := by
            simp only [alerts]
            split_ifs <;> rfl
          simp only [List.filterMap_append, halerts, List.nil_append]
          exact inserts_iterations message

theorem expected_iterations (seen messages : List Stream.Consumer.Message) :
    (expected env seen messages).filterMap iterationInsert =
      (messages.filter fun message => decide (message.topic = VQE_METRICS_TOPIC)).filterMap
        (asked env) := by
  induction messages generalizing seen with
  | nil => rfl
  | cons message rest ih =>
      rw [expected, List.filterMap_append, ih, expectedOf_iterations, List.filter_cons]
      by_cases htopic : message.topic = VQE_METRICS_TOPIC
      · simp only [htopic, decide_true, if_true, List.filterMap_cons]
        cases asked env message with
        | none => rfl
        | some insert => rfl
      · simp [htopic]

-- What was attempted for the table, and what of it is stored.
def attempted (events : List (Event sig)) : List Insert :=
  (emissions events).filterMap iterationInsert

theorem rows_cons (event : Event sig) (events : List (Event sig)) :
    rows (event :: events) = (rowOf event).toList ++ rows events := by
  unfold rows
  rw [List.filterMap_cons]
  cases rowOf event with
  | none => rfl
  | some insert => rfl

theorem attempted_cons (event : Event sig) (events : List (Event sig)) :
    attempted (event :: events) =
      ((emission event).bind iterationInsert).toList ++ attempted events := by
  unfold attempted emissions
  rw [List.filterMap_cons]
  cases emission event with
  | none => rfl
  | some emitted =>
      rw [List.filterMap_cons, Option.bind_some]
      cases iterationInsert emitted with
      | none => rfl
      | some insert => rfl

-- A statement that is not stored is one that has failed.
theorem rowOf_cases (event : Event sig) :
    rowOf event = (emission event).bind iterationInsert ∨
      rowOf event = none ∧ ∃ insert exc stored, event = ⟨.execute insert, .raised exc stored⟩ := by
  obtain ⟨op, answer⟩ := event
  cases op with
  | execute insert =>
      cases answer with
      | returned => exact .inl (by simp [rowOf, emission, iterationInsert, Outcome.stored])
      | raised exc stored =>
          cases stored with
          | true => exact .inl (by simp [rowOf, emission, iterationInsert, Outcome.stored])
          | false => exact .inr ⟨by simp [rowOf, Outcome.stored], insert, exc, false, rfl⟩
  | _ => exact .inl rfl

theorem rows_sublist (events : List (Event sig)) : (rows events).Sublist (attempted events) := by
  induction events with
  | nil => exact .slnil
  | cons event events ih =>
      rw [rows_cons, attempted_cons]
      rcases rowOf_cases event with hsame | ⟨hnone, -⟩
      · rw [hsame]
        exact ih.append_left _
      · rw [hnone]
        exact ih.trans (List.sublist_append_right _ _)

theorem rows_eq {events : List (Event sig)} (h : ∀ event ∈ events, ∀ insert exc stored,
      event ≠ ⟨.execute insert, .raised exc stored⟩) : rows events = attempted events := by
  induction events with
  | nil => rfl
  | cons event events ih =>
      rw [rows_cons, attempted_cons, ih fun other hmem => h other (List.mem_cons_of_mem _ hmem)]
      rcases rowOf_cases event with hsame | ⟨-, insert, exc, stored, hevent⟩
      · rw [hsame]
      · exact absurd hevent (h event List.mem_cons_self insert exc stored)

-- The records of the log with the rows they ask for.
def taggedRows (env : Env) (isoformat : Int → String) (log : List (Nat × Json)) :
    List (Nat × Insert) :=
  log.filterMap fun entry => (asked env (message isoformat entry.2)).map fun insert =>
    (entry.1, insert)

theorem taggedRows_snd (log : List (Nat × Json)) :
    (taggedRows env isoformat log).map Prod.snd =
      (log.map fun entry => message isoformat entry.2).filterMap (asked env) := by
  rw [taggedRows, List.map_filterMap, List.filterMap_map]
  refine List.filterMap_congr fun entry _ => ?_
  rw [Option.map_map]
  exact Option.map_id'

theorem taggedRows_filter (publication : Nat) (log : List (Nat × Json)) :
    ((taggedRows env isoformat log).filter fun entry => decide (entry.1 = publication)).map
        Prod.snd =
      (sentBy publication log).filterMap fun payload => asked env (message isoformat payload) := by
  induction log with
  | nil => rfl
  | cons entry log ih =>
      have htagged : taggedRows env isoformat (entry :: log) =
          ((asked env (message isoformat entry.2)).map fun insert => (entry.1, insert)).toList ++
            taggedRows env isoformat log := by
        rw [taggedRows, List.filterMap_cons]
        cases asked env (message isoformat entry.2) with
        | none => rfl
        | some insert => rfl
      have hsent : sentBy publication (entry :: log) =
          (if entry.1 = publication then [entry.2] else []) ++ sentBy publication log := by
        by_cases hentry : entry.1 = publication
        · simp [sentBy, hentry]
        · simp [sentBy, hentry]
      rw [htagged, hsent, List.filter_append, List.map_append, ih, List.filterMap_append]
      congr 1
      by_cases hentry : entry.1 = publication
      · cases hasked : asked env (message isoformat entry.2) with
        | none => simp [hentry, hasked]
        | some insert => simp [hentry, hasked]
      · cases hasked : asked env (message isoformat entry.2) with
        | none => simp [hentry]
        | some insert => simp [hentry]

theorem mem_taggedRows {log : List (Nat × Json)} {row : Nat × Insert}
    (hmem : row ∈ taggedRows env isoformat log) : ∃ entry ∈ log, entry.1 = row.1 := by
  obtain ⟨entry, hentry, hrow⟩ := List.mem_filterMap.mp hmem
  obtain ⟨insert, -, rfl⟩ := Option.map_eq_some_iff.mp hrow
  exact ⟨entry, hentry, rfl⟩

theorem asked_payload {time : Int} (hiso : env.fromisoformat (isoformat time) = .ok time)
    (experimentId : Json) (history : List Orchestrator.VQEIterationLog) :
    (history.map (payload experimentId time)).filterMap
        (fun payload => asked env (message isoformat payload)) =
      history.map (iterationRow experimentId time) := by
  have hasked : ∀ log, asked env (message isoformat (payload experimentId time log)) =
      some (iterationRow experimentId time log) := by
    intro log
    unfold asked
    rw [reads_message, row_message hiso]
    rfl
  rw [List.filterMap_map]
  simp only [Function.comp_def, hasked]
  exact congrFun List.filterMap_eq_map' history

section sending

variable {lossy : Prop} {clock : Int → Prop} {experimentId : Json}
  {history : List Orchestrator.VQEIterationLog} {sent : List Json}

-- The times are read back as they were written.
def Readable (env : Env) (isoformat : Int → String) (time : Int) : Prop :=
  env.fromisoformat (isoformat time) = .ok time

theorem Sending.rows {rest : Program Orchestrator.sig (Except Exc Unit)}
    (hclock : ∀ time, clock time → Readable env isoformat time)
    (h : Sending lossy clock experimentId history rest sent) :
    sent = [] ∨ ∃ time, clock time ∧
      (sent.filterMap fun payload => asked env (message isoformat payload)) <+:
        history.map (iterationRow experimentId time) := by
  rcases h with ⟨hnone, -⟩ | ⟨time, done, left, htime, rfl, rfl, -⟩
  · exact .inl hnone
  · refine .inr ⟨time, htime, ?_⟩
    rw [asked_payload (hclock time htime), List.map_append]
    exact List.prefix_append _ _

-- A call that has returned without a failure has sent everything.
theorem Sending.complete {result : Except Exc Unit}
    (hclock : ∀ time, clock time → Readable env isoformat time)
    (h : Sending False clock experimentId history (.ret result) sent) :
    ∃ time, clock time ∧ (sent.filterMap fun payload => asked env (message isoformat payload)) =
      history.map (iterationRow experimentId time) := by
  rcases h with ⟨-, hstart⟩ | ⟨time, done, left, htime, rfl, rfl, hrest | ⟨hfalse, -⟩⟩
  · rw [publish_run] at hstart
    cases hstart
  · cases left with
    | nil => exact ⟨time, htime, by rw [asked_payload (hclock time htime), List.append_nil]⟩
    | cons log left =>
        rw [send_cons] at hrest
        cases hrest
  · exact hfalse.elim

end sending

end table

section delivery

variable {lossy : Prop} {env : Env} {fuel : Nat} {isoformat : Int → String} {pipeline : Pipeline}

theorem attempted_prefix {read : List (Nat × Json)}
    (htaken : taken pipeline.events = read.map fun entry => message isoformat entry.2)
    (h : emissions pipeline.events <+: expected env [] (handed pipeline.events)) :
    attempted pipeline.events <+: (taggedRows env isoformat read).map Prod.snd := by
  have hall := h.filterMap iterationInsert
  rw [expected_iterations] at hall
  rw [taggedRows_snd, ← htaken]
  exact hall

theorem attempted_eq {read : List (Nat × Json)}
    (htaken : taken pipeline.events = read.map fun entry => message isoformat entry.2)
    (h : emissions pipeline.events = expected env [] (handed pipeline.events)) :
    attempted pipeline.events = (taggedRows env isoformat read).map Prod.snd := by
  rw [attempted, h, expected_iterations, taggedRows_snd, ← htaken]
  rfl

-- The table has rows that the calls have sent, of each call the iterations in order and none
-- of them twice.
theorem telemetry_rows (env : Env) (isoformat : Int → String)
    (fuel : Nat) (labels : List Label) (pipeline : Pipeline)
    (run : Run (Step isoformat) (initial env fuel) labels pipeline)
    (hiso : ∀ label ∈ labels, label.Clocked (Readable env isoformat)) :
    ∃ tagged : List (Nat × Insert), tagged.map Prod.snd = rows pipeline.events ∧
      (∀ entry ∈ tagged, entry.1 < pipeline.publications.length) ∧
      ∀ i publication, pipeline.publications[i]? = some publication →
        (∀ entry ∈ tagged, entry.1 ≠ i) ∨ ∃ time, .perform i ⟨.utcnow, time⟩ ∈ labels ∧
          ((tagged.filter fun entry => decide (entry.1 = i)).map Prod.snd).Sublist
            (publication.history.map (iterationRow publication.experimentId time)) := by
  have hsound := Sound.run (fun _ _ _ => trivial) hiso run
  obtain ⟨before, read, unread, hlog, -, htaken, -⟩ := hsound.reading
  have hprefix := attempted_prefix htaken (run_emits hsound.traced).emitted
  obtain ⟨tagged, hsublist, htagged⟩ :=
    List.sublist_map_iff.mp ((rows_sublist pipeline.events).trans hprefix.sublist)
  have hread : read.Sublist pipeline.log := by
    rw [hlog, List.append_assoc]
    exact (List.sublist_append_left read unread).trans (List.sublist_append_right before _)
  refine ⟨tagged, htagged.symm, fun row hmem => ?_, fun i publication hpublication => ?_⟩
  · obtain ⟨entry, hentry, hnumber⟩ := mem_taggedRows (hsublist.subset hmem)
    exact hnumber ▸ hsound.numbered entry (hread.subset hentry)
  · have hrows := (hsublist.filter fun entry => decide (entry.1 = i)).map Prod.snd
    rw [taggedRows_filter] at hrows
    have hown : (sentBy i read).Sublist (sentBy i pipeline.log) :=
      (hread.filter _).map Prod.snd
    rcases (hsound.sending i publication hpublication).rows fun _ hreads => hreads.2 with
      hnone | ⟨time, hreads, hsent⟩
    · left
      rw [hnone, List.sublist_nil] at hown
      rw [hown, List.filterMap_nil, List.sublist_nil, List.map_eq_nil_iff,
        List.filter_eq_nil_iff] at hrows
      exact fun entry hmem => by simpa using hrows entry hmem
    · exact .inr ⟨time, hreads.1, hrows.trans ((hown.filterMap _).trans hsent.sublist)⟩

def firstLog : Orchestrator.VQEIterationLog := ⟨1, [0], -1, 0, 0, 0, 0⟩

def secondLog : Orchestrator.VQEIterationLog := ⟨2, [1 / 2], -3 / 2, 0, 0, 0, 0⟩

def isoText (time : Int) : String :=
  if time = 1 then "1970-01-01T00:00:00.000001+00:00" else "1970-01-01T00:00:00.000002+00:00"

def isoEnv : Env := ⟨fun text => if text = isoText 1 then .ok 1 else .ok 2⟩

-- Experiments a, of two iterations, and b, of one, are published in turn and read to the end.
-- The last statement is answered in this way.
def turnLabels (outcome : Outcome) : List Label :=
  [.publish (.str "a") [firstLog, secondLog], .publish (.str "b") [firstLog],
    .perform 0 ⟨.utcnow, (1 : Int)⟩, .perform 1 ⟨.utcnow, (2 : Int)⟩,
    .perform 0 ⟨.kafkaSend Orchestrator.VQE_METRICS_TOPIC (payload (.str "a") 1 firstLog), .returned⟩,
    .perform 1 ⟨.kafkaSend Orchestrator.VQE_METRICS_TOPIC (payload (.str "b") 2 firstLog), .returned⟩,
    .perform 0 ⟨.kafkaSend Orchestrator.VQE_METRICS_TOPIC (payload (.str "a") 1 secondLog), .returned⟩,
    .consume ⟨.createPool, .returned⟩, .consume ⟨.start, .returned⟩,
    .consume ⟨.next, .ok (some (message isoText (payload (.str "a") 1 firstLog)))⟩,
    .consume ⟨.execute (iterationRow (.str "a") 1 firstLog), .returned⟩,
    .consume ⟨.next, .ok (some (message isoText (payload (.str "b") 2 firstLog)))⟩,
    .consume ⟨.execute (iterationRow (.str "b") 2 firstLog), .returned⟩,
    .consume ⟨.next, .ok (some (message isoText (payload (.str "a") 1 secondLog)))⟩,
    .consume ⟨.execute (iterationRow (.str "a") 1 secondLog), outcome⟩]

theorem turn_run (outcome : Outcome) : ∃ pipeline,
    Run (Step isoText) (initial isoEnv 4) (turnLabels outcome) pipeline ∧
    pipeline.position = pipeline.log.length ∧
    (outcome = .returned → ∃ next, pipeline.consumer = .call .next next) ∧
    pipeline.publications = [⟨.str "a", [firstLog, secondLog], .ret (.ok ())⟩,
      ⟨.str "b", [firstLog], .ret (.ok ())⟩] ∧
    rows pipeline.events =
      [iterationRow (.str "a") 1 firstLog, iterationRow (.str "b") 2 firstLog] ++
        (if Outcome.stored outcome = true then [iterationRow (.str "a") 1 secondLog] else []) := by
  refine ⟨_, .cons (.publish _ _) (.cons (.publish _ _) (.cons (.perform _ rfl)
    (.cons (.perform _ rfl) (.cons (.perform _ rfl) (.cons (.perform _ rfl) (.cons (.perform _ rfl)
    (.cons (.consume _ rfl ?_) (.cons (.consume _ rfl ?_) (.cons (.consume _ rfl ?_)
    (.cons (.consume _ rfl ?_) (.cons (.consume _ rfl ?_) (.cons (.consume _ rfl ?_)
    (.cons (.consume _ rfl ?_) (.cons (.consume _ rfl ?_) .start)))))))))))))), rfl, ?_, rfl, ?_⟩
  · exact fun _ hmem => by cases hmem
  · exact fun _ hmem => by cases hmem
  · exact fun _ hmem => ⟨_, rfl, List.mem_singleton.mp hmem⟩
  · exact fun _ hmem => by cases hmem
  · exact fun _ hmem => ⟨_, rfl, List.mem_singleton.mp hmem⟩
  · exact fun _ hmem => by cases hmem
  · exact fun _ hmem => ⟨_, rfl, List.mem_singleton.mp hmem⟩
  · exact fun _ hmem => by cases hmem
  · rintro rfl
    exact ⟨_, rfl⟩
  · cases outcome with
    | returned => rfl
    | raised exc stored => cases stored <;> rfl

theorem turn_clocked (outcome : Outcome) :
    ∀ label ∈ turnLabels outcome, label.Clocked (Readable isoEnv isoText) := by
  intro label hmem publication time hlabel
  simp only [turnLabels, List.mem_cons, List.not_mem_nil, or_false] at hmem
  rcases hmem with rfl | rfl | rfl | rfl | rfl | rfl | rfl | rfl | rfl | rfl | rfl | rfl | rfl |
    rfl | rfl
  all_goals cases hlabel
  · rfl
  · have hother : isoText 2 ≠ isoText 1 := by decide
    exact @if_neg _ _ hother _ (.ok 1) _

theorem turn_times {outcome : Outcome} {i : Nat} {time : Int}
    (h : .perform i ⟨.utcnow, time⟩ ∈ turnLabels outcome) : i = 0 ∧ time = 1 ∨ i = 1 ∧ time = 2 := by
  simp only [turnLabels, List.mem_cons, List.not_mem_nil, or_false] at h
  rcases h with h | h | h | h | h | h | h | h | h | h | h | h | h | h | h
  all_goals cases h
  · exact .inl ⟨rfl, rfl⟩
  · exact .inr ⟨rfl, rfl⟩

-- The statement for the second iteration of a fails.
theorem telemetry_rows_lost : ∃ (pipeline : Pipeline) (tagged : List (Nat × Insert)),
    Run (Step isoText) (initial isoEnv 4)
      (turnLabels (.raised (Exc.runtimeError "deadlock detected") false)) pipeline ∧
    tagged.map Prod.snd = rows pipeline.events ∧ (∀ entry ∈ tagged, entry.1 < 2) ∧
    rows pipeline.events =
      [iterationRow (.str "a") 1 firstLog, iterationRow (.str "b") 2 firstLog] ∧
    ((tagged.filter fun entry => decide (entry.1 = 0)).map Prod.snd).Sublist
      [iterationRow (.str "a") 1 firstLog, iterationRow (.str "a") 1 secondLog] ∧
    ((tagged.filter fun entry => decide (entry.1 = 1)).map Prod.snd).Sublist
      [iterationRow (.str "b") 2 firstLog] := by
  obtain ⟨pipeline, hrun, -, -, hpublications, hrows⟩ :=
    turn_run (.raised (Exc.runtimeError "deadlock detected") false)
  obtain ⟨tagged, htagged, hnumbered, hall⟩ :=
    telemetry_rows isoEnv isoText 4 _ pipeline hrun (turn_clocked _)
  rw [hpublications] at hnumbered hall
  have hnone : ∀ i, (∀ entry ∈ tagged, entry.1 ≠ i) →
      (tagged.filter fun entry => decide (entry.1 = i)).map Prod.snd = [] := by
    intro i hother
    rw [List.map_eq_nil_iff, List.filter_eq_nil_iff]
    exact fun entry hmem => by simpa using hother entry hmem
  refine ⟨pipeline, tagged, hrun, htagged, hnumbered, hrows, ?_, ?_⟩
  · rcases hall 0 _ rfl with hother | ⟨time, hread, hsublist⟩
    · rw [hnone 0 hother]
      exact List.nil_sublist _
    · obtain ⟨-, rfl⟩ | ⟨hzero, -⟩ := turn_times hread
      · exact hsublist
      · cases hzero
  · rcases hall 1 _ rfl with hother | ⟨time, hread, hsublist⟩
    · rw [hnone 1 hother]
      exact List.nil_sublist _
    · obtain ⟨hone, -⟩ | ⟨-, rfl⟩ := turn_times hread
      · cases hone
      · exact hsublist

-- Where nothing fails and the consumer has come to the end of the log, every iteration of
-- every finished call has its row.
theorem telemetry_complete (env : Env) (isoformat : Int → String)
    (fuel : Nat) (labels : List Label) (pipeline : Pipeline)
    (run : Run (Step isoformat) (initial env fuel) labels pipeline)
    (hiso : ∀ label ∈ labels, label.Clocked (Readable env isoformat))
    (hlossless : ∀ label ∈ labels, ¬ label.Lossy)
    (hread : pipeline.position = pipeline.log.length)
    (hidle : ∃ next, pipeline.consumer = .call .next next) :
    ∃ tagged : List (Nat × Insert), tagged.map Prod.snd = rows pipeline.events ∧
      ∀ i publication, pipeline.publications[i]? = some publication →
        (∃ result, publication.rest = .ret result) →
          ∃ time, .perform i ⟨.utcnow, time⟩ ∈ labels ∧
            (tagged.filter fun entry => decide (entry.1 = i)).map Prod.snd =
              publication.history.map (iterationRow publication.experimentId time) := by
  have hsound := Sound.run hlossless hiso run
  obtain ⟨before, read, unread, hlog, hposition, htaken, hbefore⟩ := hsound.reading
  obtain ⟨next, hnext⟩ := hidle
  have htraced := hsound.traced
  rw [hnext] at htraced
  have hempty : before = [] ∧ unread = [] := by
    refine ⟨hbefore.resolve_left id, ?_⟩
    rw [hlog, hposition, List.length_append, List.length_append] at hread
    exact List.length_eq_zero_iff.mp (by omega)
  have hall : read = pipeline.log := by rw [hlog, hempty.1, hempty.2]; simp
  subst hall
  refine ⟨taggedRows env isoformat pipeline.log, ?_, fun i publication hpublication hover => ?_⟩
  · rw [rows_eq (hsound.inserted.resolve_left id), attempted_eq htaken (idle_emits htraced)]
  · obtain ⟨result, hresult⟩ := hover
    have hsending := hsound.sending i publication hpublication
    rw [hresult] at hsending
    obtain ⟨time, hreads, hsent⟩ := hsending.complete fun _ hreads => hreads.2
    exact ⟨time, hreads.1, (taggedRows_filter i _).trans hsent⟩

theorem turn_lossless : ∀ label ∈ turnLabels .returned, ¬ label.Lossy := by
  intro label hmem hlossy
  simp only [turnLabels, List.mem_cons, List.not_mem_nil, or_false] at hmem
  rcases hmem with rfl | rfl | rfl | rfl | rfl | rfl | rfl | rfl | rfl | rfl | rfl | rfl | rfl |
    rfl | rfl
  · exact hlossy
  · exact hlossy
  iterate 5
    obtain ⟨topic, payload, exc, stored, hevent⟩ := hlossy
    cases hevent
  all_goals
    obtain ⟨insert, exc, stored, hevent⟩ := hlossy
    cases hevent

theorem telemetry_complete_turn : ∃ (pipeline : Pipeline) (tagged : List (Nat × Insert)),
    Run (Step isoText) (initial isoEnv 4) (turnLabels .returned) pipeline ∧
    tagged.map Prod.snd = rows pipeline.events ∧
    (tagged.filter fun entry => decide (entry.1 = 0)).map Prod.snd =
      [iterationRow (.str "a") 1 firstLog, iterationRow (.str "a") 1 secondLog] ∧
    (tagged.filter fun entry => decide (entry.1 = 1)).map Prod.snd =
      [iterationRow (.str "b") 2 firstLog] := by
  obtain ⟨pipeline, hrun, hread, hidle, hpublications, -⟩ := turn_run .returned
  obtain ⟨tagged, htagged, hall⟩ := telemetry_complete isoEnv isoText 4 _ pipeline hrun
    (turn_clocked _) turn_lossless hread (hidle rfl)
  rw [hpublications] at hall
  obtain ⟨first, hfirst, hrows⟩ := hall 0 _ rfl ⟨_, rfl⟩
  obtain ⟨second, hsecond, hothers⟩ := hall 1 _ rfl ⟨_, rfl⟩
  obtain ⟨-, rfl⟩ | ⟨hzero, -⟩ := turn_times hfirst
  · obtain ⟨hone, -⟩ | ⟨-, rfl⟩ := turn_times hsecond
    · cases hone
    · exact ⟨pipeline, tagged, hrun, htagged, hrows, hothers⟩
  · cases hzero

end delivery

end QuantumPlatform.Telemetry
