import QuantumPlatform.Api.Consumer.Theorems

namespace QuantumPlatform.Api

open Process Python

section delivery

variable (index : Nat) (resultMsg : ExperimentResultMessage)

-- While one message is handled its own record is read, and the message is
-- settled only once it has been handled.
def Logs.Allowed (logs : Logs) : Effect → Prop
  | .storeGet key => key = resultMsg.experimentId
  | .ack => logs.Handled index resultMsg
  | .reject => logs.Handled index resultMsg
  | _ => True

-- The read finds the record, and no call raises before it has done its work.
def Expected : (op : Effect) → op.Ans → Prop
  | .storeGet key, answer => ∃ existing, answer = .ok (some existing) ∧ key = .str existing.id
  | .storeSave experiment, outcome => outcome = .returned ∨
      Outcome.stored outcome = true ∧ experiment.status.terminal = false
  | .kafkaSend _ _ _, outcome => Outcome.stored outcome = true
  | _, _ => True

def delivery : Monitor sig Logs where
  allowed logs op := logs.Allowed index resultMsg op
  admits _ op answer := Expected op answer
  next logs op answer := logs.after index op answer

variable {index resultMsg}

theorem update_reflects (existing : ExperimentResponse) (status : ExperimentStatus)
    (now : DateTime) (hkey : resultMsg.experimentId = .str existing.id)
    (hstatus : recognised resultMsg.status = some status) :
    (existing.update status resultMsg now).Reflects resultMsg := by
  refine ⟨hkey, hstatus, rfl, fun hterminal => ?_⟩
  simp [ExperimentResponse.update, hterminal]

theorem process_obeys {logs : Logs} {body : Py sig Unit}
    (hbody : (delivery index resultMsg).Obeys
      (fun later _ => later.Handled index resultMsg) logs body.run) :
    (delivery index resultMsg).Obeys (fun _ _ => True) logs (process body).run := by
  refine hbody.bind fun later result hhandled => ?_
  cases result with
  | ok value => exact ⟨hhandled, fun _ _ => trivial⟩
  | error exc => exact ⟨hhandled, fun _ _ => trivial⟩

-- What apply_result_message has done when it ends: it returned the saved
-- record, or it raised after the last thing it had to do.
def Applied (index : Nat) (resultMsg : ExperimentResultMessage) (logs : Logs) :
    Except Exc (Option ExperimentResponse) → Prop
  | .ok (some experiment) =>
      (index, experiment) ∈ logs.applied ∧ experiment.Reflects resultMsg
  | .ok none => False
  | .error _ => logs.Handled index resultMsg

theorem storeSave_obeys (logs : Logs) (experiment : ExperimentResponse)
    (hreflects : experiment.Reflects resultMsg) :
    (delivery index resultMsg).Obeys
      (fun later result => match result with
        | .ok _ => (index, experiment) ∈ later.applied
        | .error _ => later.Handled index resultMsg)
      logs (storeSave experiment).run := by
  refine ⟨trivial, fun outcome houtcome => ?_⟩
  have hstored : (index, experiment) ∈
      (logs.after index (.storeSave experiment) Outcome.returned).applied := by
    simp [Logs.after, Outcome.stored]
  rcases houtcome with rfl | ⟨hkept, hopen⟩
  · exact hstored
  · cases outcome with
    | returned => exact hstored
    | raised exc stored =>
        obtain rfl : stored = true := hkept
        -- raised after the write: nothing is left to do for a message without an event
        refine ⟨experiment, hstored, hreflects, fun hterminal => ?_⟩
        rw [recognised_terminal resultMsg experiment.status hreflects.2.1, hopen] at hterminal
        exact absurd hterminal (by simp)

theorem publishCompletedExperiment_obeys (logs : Logs) (experiment : ExperimentResponse)
    (hreflects : experiment.Reflects resultMsg) (happlied : (index, experiment) ∈ logs.applied) :
    (delivery index resultMsg).Obeys (fun later _ => later.Handled index resultMsg) logs
      (publishCompletedExperiment experiment).run := by
  refine ⟨trivial, fun outcome houtcome => ?_⟩
  have hhandled : (logs.after index (.kafkaSend COMPLETED_EXPERIMENTS_TOPIC experiment
      experiment.id) outcome).Handled index resultMsg := by
    refine ⟨experiment, ?_, hreflects, fun _ => ?_⟩
    · simpa [Logs.after, show Outcome.stored outcome = true from houtcome] using happlied
    · simp [Logs.after, show Outcome.stored outcome = true from houtcome]
  cases outcome with
  | returned => exact hhandled
  | raised exc stored => exact hhandled

theorem storeGet_obeys (logs : Logs) :
    (delivery index resultMsg).Obeys
      (fun later result => later = logs ∧ ∃ existing, result = .ok (some existing) ∧
        resultMsg.experimentId = .str existing.id)
      logs (storeGet resultMsg.experimentId).run := by
  refine ⟨rfl, fun answer hanswer => ?_⟩
  obtain ⟨existing, rfl, hkey⟩ := hanswer
  exact ⟨rfl, existing, rfl, hkey⟩

theorem saveUpdated_obeys (logs : Logs) (experiment : ExperimentResponse)
    (hreflects : experiment.Reflects resultMsg) :
    (delivery index resultMsg).Obeys (Applied index resultMsg) logs
      (storeSave experiment >>= fun _ => pure (some experiment)).run := by
  refine Py.obeys_bind (storeSave_obeys logs experiment hreflects) ?_ ?_
  · intro later _ happlied
    exact ⟨happlied, hreflects⟩
  · intro later exc hhandled
    exact hhandled

theorem applyResultMessage_obeys (logs : Logs) (status : ExperimentStatus)
    (hstatus : recognised resultMsg.status = some status) :
    (delivery index resultMsg).Obeys (Applied index resultMsg) logs
      (applyResultMessage resultMsg).run := by
  have hfound : statusByMessage resultMsg.status = .ok (some status) := by
    unfold recognised at hstatus
    cases h : statusByMessage resultMsg.status with
    | error exc => simp [h] at hstatus
    | ok found => simpa [h] using hstatus
  refine Py.obeys_bind (storeGet_obeys logs) ?_ ?_
  · rintro later found ⟨rfl, existing, hok, hkey⟩
    obtain rfl : found = some existing := Except.ok.inj hok
    have hsave := fun now => @saveUpdated_obeys index resultMsg later
      (existing.update status resultMsg now) (update_reflects existing status now hkey hstatus)
    simp only [hfound, ExperimentResponse.update] at hsave ⊢
    cases hterminal : resultMsg.terminal
    · simp only [hterminal] at hsave
      exact hsave 0
    · simp only [hterminal] at hsave
      exact ⟨trivial, fun now _ => hsave now⟩
  · rintro later exc ⟨-, existing, hok, -⟩
    simp at hok

-- One delivery of a valid message that meets only harmless answers settles it
-- after its record is saved and its event is out.
theorem consumeMessage_obeys (logs : Logs) (status : ExperimentStatus)
    (hstatus : recognised resultMsg.status = some status) :
    (delivery index resultMsg).Obeys (fun _ _ => True) logs
      (process (consumeMessage resultMsg.toJson)).run := by
  refine process_obeys ?_
  unfold consumeMessage
  rw [ExperimentResultMessage.fromJson_toJson, Py.ofExcept_ok, pure_bind]
  refine Py.obeys_bind (applyResultMessage_obeys logs status hstatus) ?_ ?_
  · intro later found happlied
    cases found with
    | none => exact happlied.elim
    | some experiment =>
        obtain ⟨hmem, hreflects⟩ := happlied
        cases hterminal : resultMsg.terminal
        · refine ⟨experiment, hmem, hreflects, fun h => ?_⟩
          rw [hterminal] at h
          exact absurd h (by simp)
        · simp only [if_true]
          exact publishCompletedExperiment_obeys later experiment hreflects hmem
  · intro later exc hhandled
    exact hhandled

end delivery

theorem Logs.Handled.after {logs : Logs} {index : Nat} {resultMsg : ExperimentResultMessage}
    (hhandled : logs.Handled index resultMsg) (other : Nat) (op : Effect) (answer : op.Ans) :
    (logs.after other op answer).Handled index resultMsg := by
  obtain ⟨experiment, happlied, hreflects, hannounced⟩ := hhandled
  refine ⟨experiment, ?_, hreflects, fun hterminal => ?_⟩
  · unfold Logs.after
    split <;> [split; split; skip]
    all_goals simp [happlied]
  · have hmem := hannounced hterminal
    unfold Logs.after
    split <;> [split; split; skip]
    all_goals simp [hmem]

namespace Consumer

theorem Valid.save {consumer next : Consumer} {resultMsg : ExperimentResultMessage}
    (hvalid : consumer.Valid resultMsg)
    (hsame : ∀ experimentId, (consumer.store.get experimentId).isSome = true →
      (next.store.get experimentId).isSome = true) : next.Valid resultMsg := by
  obtain ⟨⟨experimentId, experiment, hkey, hget⟩, hstatus⟩ := hvalid
  obtain ⟨found, hfound⟩ := Option.isSome_iff_exists.mp (hsame experimentId (by rw [hget]; rfl))
  exact ⟨⟨experimentId, found, hkey, hfound⟩, hstatus⟩

theorem isSome_save (store : InMemoryExperimentStore) (experiment : ExperimentResponse)
    (experimentId : String) (hsome : (store.get experimentId).isSome = true) :
    ((store.save experiment).get experimentId).isSome = true := by
  rw [InMemoryExperimentStore.get_save]
  split_ifs
  · rfl
  · exact hsome

theorem isSome_after (store : InMemoryExperimentStore) (op : Effect) (answer : op.Ans)
    (experimentId : String) (hsome : (store.get experimentId).isSome = true) :
    ((store.after op answer).get experimentId).isSome = true := by
  cases op with
  | storeSave experiment =>
      simp only [InMemoryExperimentStore.after]
      split_ifs
      · exact isSome_save store experiment experimentId hsome
      · exact hsome
  | _ => exact hsome

-- The harmless answers of the store and the topic are the ones a delivery expects.
theorem expected_of_harmless {consumer : Consumer} {index : Nat}
    {resultMsg : ExperimentResultMessage} (hvalid : consumer.Valid resultMsg) {op : Effect}
    {answer : op.Ans} (hallowed : consumer.logs.Allowed index resultMsg op)
    (hanswers : consumer.Answers op answer) (hharmless : Harmless (.perform op answer)) :
    Expected op answer := by
  cases op with
  | storeGet key =>
      obtain ⟨⟨experimentId, experiment, hkey, hget⟩, -⟩ := hvalid
      have hlookup : consumer.store.lookup key = .ok (some experiment) :=
        (InMemoryExperimentStore.lookup_eq_some consumer.store key experiment).mpr
          ⟨experimentId, hallowed.trans hkey, hget⟩
      have hid := consumer.store.keyed experimentId experiment hget
      rcases hanswers with rfl | ⟨exc, rfl⟩
      · exact ⟨experiment, hlookup, by rw [hid]; exact hallowed.trans hkey⟩
      · obtain ⟨found, hfound⟩ := hharmless
        exact absurd hfound (by simp)
  | storeSave experiment => exact hharmless
  | kafkaSend topic payload key => exact hharmless
  | _ => trivial

structure Sound (consumer : Consumer) : Prop where
  valid : ∀ resultMsg ∈ consumer.messages, consumer.Valid resultMsg
  safe : ∀ index resultMsg, consumer.messages[index]? = some resultMsg →
    consumer.Safe index resultMsg
  obeys : ∀ index rest, consumer.handling = some (index, rest) →
    ∃ resultMsg, consumer.messages[index]? = some resultMsg ∧
      (delivery index resultMsg).Obeys (fun _ _ => True) consumer.logs rest

variable {consumer next later : Consumer} {label : Label} {labels : List Label}

theorem Sound.arrive (hsound : consumer.Sound) (resultMsg : ExperimentResultMessage)
    (hvalid : consumer.Valid resultMsg) :
    Sound { consumer with
      messages := consumer.messages ++ [resultMsg],
      queue := consumer.queue ++ [consumer.messages.length] } := by
  refine ⟨?_, ?_, ?_⟩
  · intro other hother
    rcases List.mem_append.mp hother with hold | hnew
    · exact hsound.valid other hold
    · rw [List.mem_singleton.mp hnew]
      exact hvalid
  · intro index other hget
    by_cases hlt : index < consumer.messages.length
    · rw [List.getElem?_append_left hlt] at hget
      rcases hsound.safe index other hget with hqueue | hrest
      · exact .inl (List.mem_append_left _ hqueue)
      · exact .inr hrest
    · have hbound := List.getElem?_eq_some_iff.mp hget
      have hlen : index = consumer.messages.length := by
        obtain ⟨hlt', -⟩ := hbound
        simp only [List.length_append, List.length_singleton] at hlt'
        omega
      exact .inl (List.mem_append_right _ (by rw [hlen]; exact List.mem_singleton_self _))
  · intro index rest hhandling
    obtain ⟨other, hget, hobeys⟩ := hsound.obeys index rest hhandling
    refine ⟨other, ?_, hobeys⟩
    rw [List.getElem?_append_left (List.getElem?_eq_some_iff.mp hget).1]
    exact hget

theorem Sound.deliver (hsound : consumer.Sound) (index : Nat) (rest : List Nat)
    (resultMsg : ExperimentResultMessage) (hwaiting : consumer.queue = index :: rest)
    (hfound : consumer.messages[index]? = some resultMsg) :
    Sound { consumer with
      queue := rest, unacked := index :: consumer.unacked,
      handling := some (index, (process (consumeMessage resultMsg.toJson)).run) } := by
  refine ⟨hsound.valid, ?_, ?_⟩
  · intro other otherMsg hget
    rcases hsound.safe other otherMsg hget with hqueue | hunacked | hhandled
    · rw [hwaiting] at hqueue
      rcases List.mem_cons.mp hqueue with rfl | hrest
      · exact .inr (.inl (List.mem_cons_self))
      · exact .inl hrest
    · exact .inr (.inl (List.mem_cons_of_mem _ hunacked))
    · exact .inr (.inr hhandled)
  · intro other program hhandling
    obtain ⟨rfl, rfl⟩ := Prod.mk.inj (Option.some.inj hhandling)
    obtain ⟨-, hstatus⟩ := hsound.valid resultMsg (List.mem_of_getElem? hfound)
    obtain ⟨status, hs⟩ := Option.isSome_iff_exists.mp hstatus
    exact ⟨resultMsg, hfound, consumeMessage_obeys consumer.logs status hs⟩

theorem mem_unackedAfter (index other : Nat) (op : Effect) (hmem : other ∈ consumer.unacked) :
    other ∈ consumer.unackedAfter index op ∨ other = index ∧ (op = .ack ∨ op = .reject) := by
  by_cases hother : other = index
  · cases op with
    | ack => exact .inr ⟨hother, .inl rfl⟩
    | reject => exact .inr ⟨hother, .inr rfl⟩
    | _ => exact .inl hmem
  · cases op with
    | ack => exact .inl ((List.mem_erase_of_ne hother).mpr hmem)
    | reject => exact .inl ((List.mem_erase_of_ne hother).mpr hmem)
    | _ => exact .inl hmem

theorem Sound.perform (hsound : consumer.Sound) (index : Nat) (op : Effect)
    (program : op.Ans → Program sig (Except Exc Unit)) (answer : op.Ans)
    (hhandling : consumer.handling = some (index, .call op program))
    (hanswers : consumer.Answers op answer) (hharmless : Harmless (.perform op answer)) :
    Sound { consumer with
      store := consumer.store.after op answer,
      unacked := consumer.unackedAfter index op,
      handling := some (index, program answer),
      logs := consumer.logs.after index op answer } := by
  obtain ⟨resultMsg, hfound, hallowed, hnext⟩ := hsound.obeys index _ hhandling
  have hvalid := hsound.valid resultMsg (List.mem_of_getElem? hfound)
  refine ⟨?_, ?_, ?_⟩
  · intro other hother
    exact (hsound.valid other hother).save fun experimentId hsome =>
      isSome_after consumer.store op answer experimentId hsome
  · intro other otherMsg hget
    rcases hsound.safe other otherMsg hget with hqueue | hunacked | hhandled
    · exact .inl hqueue
    · rcases mem_unackedAfter index other op hunacked with hmem | ⟨rfl, hop⟩
      · exact .inr (.inl hmem)
      · -- only a handled message is settled
        obtain rfl : otherMsg = resultMsg := Option.some.inj (hget.symm.trans hfound)
        have hhandled : consumer.logs.Handled other otherMsg := by
          rcases hop with rfl | rfl
          · exact hallowed
          · exact hallowed
        exact .inr (.inr (hhandled.after other op answer))
    · exact .inr (.inr (hhandled.after index op answer))
  · intro other rest hsome
    obtain ⟨rfl, rfl⟩ := Prod.mk.inj (Option.some.inj hsome)
    exact ⟨resultMsg, hfound,
      hnext answer (expected_of_harmless hvalid hallowed hanswers hharmless)⟩

theorem Step.sound (h : Step consumer label next) (hsound : consumer.Sound)
    (hharmless : Harmless label) : next.Sound := by
  cases h with
  | arrive resultMsg valid => exact hsound.arrive resultMsg valid
  | save experiment =>
      exact ⟨fun resultMsg hmem => (hsound.valid resultMsg hmem).save fun experimentId hsome =>
        isSome_save consumer.store experiment experimentId hsome, hsound.safe, hsound.obeys⟩
  | deliver index rest resultMsg running idle waiting found =>
      exact hsound.deliver index rest resultMsg waiting found
  | perform index op program answer handling answers =>
      exact hsound.perform index op program answer handling answers hharmless
  | finish index result handling =>
      exact ⟨hsound.valid, hsound.safe, fun _ _ h => absurd h (by simp)⟩
  | restart =>
      refine ⟨hsound.valid, ?_, fun _ _ h => absurd h (by simp)⟩
      intro index resultMsg hget
      rcases hsound.safe index resultMsg hget with hqueue | hunacked | hhandled
      · exact .inl (List.mem_append_right _ hqueue)
      · exact .inl (List.mem_append_left _ hunacked)
      · exact .inr (.inr hhandled)

-- Along every run whose calls are harmless no valid result is lost.
theorem run_safe (store : InMemoryExperimentStore) (labels : List Label) (later : Consumer)
    (run : Run Step { store := store } labels later) (hharmless : ∀ label ∈ labels, Harmless label)
    (index : Nat) (resultMsg : ExperimentResultMessage)
    (hget : later.messages[index]? = some resultMsg) : later.Safe index resultMsg := by
  have hstart : Sound { store := store } :=
    ⟨fun _ hmem => absurd hmem (by simp), fun _ _ h => absurd h (by simp),
      fun _ _ h => absurd h (by simp)⟩
  have hsound : Sound later := run.invariant
    (fun _ _ _ hsound hlabel last => last.sound hsound hlabel) hharmless hstart
  exact hsound.safe index resultMsg hget

section example_run

private def queued : ExperimentResponse := ⟨"e1", .grover, .queued, 0, .null, none, .null, .null⟩

private def completed : ExperimentResultMessage := ⟨.str "e1", .str "completed", .obj [], .null⟩

private def known : InMemoryExperimentStore := (∅ : InMemoryExperimentStore).save queued

private def stored : ExperimentResponse := queued.update .completed completed 7

-- The completed result has been read and saved, and its event is to be sent.
private def announcing : Consumer :=
  { store := known.save stored, messages := [completed], unacked := [0],
    handling := some (0, (process (publishCompletedExperiment stored)).run),
    logs := { applied := [(0, stored)] } }

private theorem announcing_reached : ∃ labels, Run Step { store := known } labels announcing ∧
    ∀ label ∈ labels, Harmless label := by
  have harrive : Run Step { store := known } _ _ :=
    .single (.arrive _ completed ⟨⟨"e1", queued, rfl, rfl⟩, rfl⟩)
  have hdeliver : Run Step { store := known } _ _ :=
    harrive.step (.deliver _ 0 [] completed rfl rfl rfl rfl)
  have hread : Run Step { store := known } _ _ :=
    hdeliver.step (.perform _ 0 (.storeGet (.str "e1")) _ (.ok (some queued)) rfl (.inl rfl))
  have hclock : Run Step { store := known } _ _ :=
    hread.step (.perform _ 0 .utcnow _ (7 : DateTime) rfl trivial)
  have hsave : Run Step { store := known } _ _ :=
    hclock.step (.perform _ 0 (.storeSave stored) _ Outcome.returned rfl trivial)
  refine ⟨_, (hsave : Run Step { store := known } _ announcing), ?_⟩
  intro label hlabel
  simp only [List.append_assoc, List.mem_append, List.mem_cons, List.not_mem_nil,
    or_false] at hlabel
  rcases hlabel with rfl | rfl | rfl | rfl | rfl
  · trivial
  · trivial
  · exact ⟨_, rfl⟩
  · trivial
  · exact .inl rfl

theorem run_safe_announced : ∃ later : Consumer, later.unacked = [] ∧ later.queue = [] ∧
    later.messages = [completed] ∧ later.Safe 0 completed := by
  obtain ⟨labels, hrun, hharmless⟩ := announcing_reached
  have hsend : Run Step { store := known } _ _ :=
    hrun.step (.perform _ 0 (.kafkaSend _ _ _) _ Outcome.returned rfl trivial)
  have hack : Run Step { store := known } _ _ := hsend.step (.perform _ 0 .ack _ () rfl trivial)
  refine ⟨_, rfl, rfl, rfl, run_safe known _ _ hack ?_ 0 completed rfl⟩
  intro label hlabel
  simp only [List.append_assoc, List.mem_append, List.mem_cons, List.not_mem_nil,
    or_false] at hlabel
  rcases hlabel with hold | rfl | rfl
  · exact hharmless label hold
  · rfl
  · trivial

-- The publish raises after the save: the message is rejected without requeue
-- and its completion event never goes out.
theorem run_not_safe : ¬ ∀ (store : InMemoryExperimentStore) (labels : List Label)
    (later : Consumer), Run Step { store := store } labels later →
    ∀ index resultMsg, later.messages[index]? = some resultMsg → later.Safe index resultMsg := by
  intro hsafe
  obtain ⟨labels, hrun, -⟩ := announcing_reached
  have hsend : Run Step { store := known } _ _ :=
    hrun.step (.perform _ 0 (.kafkaSend _ _ _) _
      (Outcome.raised (Exc.runtimeError "broker unreachable") false) rfl trivial)
  have hreject : Run Step { store := known } _ _ :=
    hsend.step (.perform _ 0 .reject _ () rfl trivial)
  rcases hsafe known _ _ hreject 0 completed rfl with hqueue | hunacked | hhandled
  · exact absurd hqueue (List.not_mem_nil)
  · exact absurd hunacked (List.not_mem_nil)
  · obtain ⟨experiment, -, -, hannounced⟩ := hhandled
    exact absurd (hannounced rfl) (List.not_mem_nil)

end example_run

end Consumer

end QuantumPlatform.Api
