import QuantumPlatform.Orchestrator.Worker

namespace QuantumPlatform.Orchestrator

open Process Python QuantumPlatform.Core

variable {State : Type} {monitor : Monitor sig State} {state : State} {env : Env}
  {final : State → Except Exc Unit → Prop} {task : ExperimentTask}

-- What is left to show once the task ended: its report goes out and the message is
-- acknowledged, or what it raised is answered for.
def Reporting (monitor : Monitor sig State) (final : State → Except Exc Unit → Prop)
    (raised : State → Exc → Prop) (later : State) : Except Exc ExperimentResultMessage → Prop
  | .ok resultMessage =>
      monitor.Obeys final later (publishResultMessage resultMessage >>= fun _ => ack).run
  | .error exc => raised later exc

-- What is known when execute_task ends decides what is known when the task was
-- reported: the result is sent as completed, an Exception as failed, and
-- anything else gets through.
theorem runAndReport_rule {executed : State → Except Exc Json → Prop}
    (hexecute : monitor.Obeys executed state (executeTask env task).run)
    (hcompleted : ∀ later value, executed later (.ok value) → monitor.Obeys final later
      (publishResultMessage (completedResult task value) >>= fun _ => ack).run)
    (hfailed : ∀ later (exc : Exc), executed later (.error exc) → exc.isException = true →
      monitor.Obeys final later
        (publishResultMessage (failedResult task exc.message) >>= fun _ => ack).run)
    (hescaped : ∀ later (exc : Exc), executed later (.error exc) → exc.isException = false →
      final later (.error exc)) :
    monitor.Obeys final state (runAndReport env task).run := by
  unfold runAndReport
  have hresult : monitor.Obeys (Reporting monitor final fun later exc => executed later (.error exc))
      state (executeTask env task >>= fun result => pure (completedResult task result)).run :=
    Py.obeys_bind hexecute hcompleted fun _ _ hlater => hlater
  have hreported : monitor.Obeys (Reporting monitor final fun later exc => final later (.error exc))
      state (Py.exceptException
        (executeTask env task >>= fun result => pure (completedResult task result))
        fun exc => return failedResult task exc.message).run :=
    Py.obeys_exceptException hresult (fun _ _ hlater => hlater) hfailed hescaped
  exact Py.obeys_bind hreported (fun _ _ hlater => hlater) fun _ _ hlater => hlater

-- The policy reads the clock to judge an observation.
theorem evaluateNow_rule {α : Type} {policy : CalibrationPolicy}
    {observation : CalibrationObservation} {next : CalibrationDecision → Py sig α}
    {post : State → Except Exc α → Prop} (hallowed : monitor.allowed state .utcnow)
    (hdecided : ∀ now, monitor.admits state .utcnow now →
      monitor.Obeys post (monitor.next state .utcnow now)
        (next (policy.evaluate (some observation) now)).run) :
    monitor.Obeys post state (policy.evaluateNow (some observation) >>= next).run :=
  ⟨hallowed, hdecided⟩

-- The gate in front of a VQE task: the lookup may fail, the policy may reject,
-- wait or allow. The other tasks run at once.
theorem handleTask_rule {ready : State → Prop} {message : Message}
    (hget : ∀ current, ready current →
      monitor.allowed current (.calibrationGet env.settings.backendName) ∧
      ∀ answer, monitor.admits current (.calibrationGet env.settings.backendName) answer →
        match answer with
        | .ok _ => ready (monitor.next current (.calibrationGet env.settings.backendName) answer)
        | .error exc => final
            (monitor.next current (.calibrationGet env.settings.backendName) answer) (.error exc))
    (hclock : ∀ current, ready current → monitor.allowed current .utcnow ∧
      ∀ now, monitor.admits current .utcnow now → ready (monitor.next current .utcnow now))
    (hreject : ∀ current error, ready current → monitor.Obeys final current
      (publishResultMessage (failedResult task error) >>= fun _ => ack).run)
    (hwait : ∀ current, ready current →
      monitor.Obeys final current (waitForCalibration env message task).run)
    (hrun : ∀ current, ready current → monitor.Obeys final current (runAndReport env task).run)
    (hready : ready state) : monitor.Obeys final state (handleTask env message task).run := by
  unfold handleTask
  split_ifs
  · obtain ⟨hallowed, hanswer⟩ := hget state hready
    refine ⟨hallowed, fun answer hadmits => ?_⟩
    have hlater := hanswer answer hadmits
    cases answer with
    | error exc => exact hlater
    | ok observation =>
        cases observation with
        | none => exact hwait _ hlater
        | some observation =>
            obtain ⟨hreads, hnow⟩ := hclock _ hlater
            refine evaluateNow_rule hreads fun now hadmitted => ?_
            have hlast := hnow now hadmitted
            cases (policy env).evaluate (some observation) now with
            | reject => exact hreject _ _ hlast
            | wait => exact hwait _ hlast
            | allow => exact hrun _ hlast
  · exact hrun state hready

-- What handle_message does apart from running the task.
def Effect.Messaging : Effect → Prop
  | .handleMessage => True
  | .publish _ _ => True
  | .declareQueue _ => True
  | .ack => True
  | .calibrationGet _ => True
  | .utcnow => True
  | .triggerSet => True
  | _ => False

section messaging

variable {allowed : Effect → Prop} {queue : String} {message : Message}

theorem publish_only (hpublish : allowed (.publish queue message)) :
    (publish queue message).run.Only allowed := by
  refine ⟨hpublish, fun outcome => ?_⟩
  cases outcome <;> trivial

theorem ack_only (hack : allowed .ack) : ack.run.Only allowed := by
  refine ⟨hack, fun outcome => ?_⟩
  cases outcome <;> trivial

theorem publish_ack_only (hpublish : allowed (.publish queue message)) (hack : allowed .ack) :
    (publish queue message >>= fun _ => ack).run.Only allowed :=
  Py.only_bind (publish_only hpublish) fun _ => ack_only hack

theorem deadLetter_only (hdeclare : allowed (.declareQueue DEAD_LETTER_QUEUE_NAME))
    (hpublish : allowed (.publish DEAD_LETTER_QUEUE_NAME (deadLetterCopy message))) :
    (sendToDeadLetterQueue message).run.Only allowed := by
  refine ⟨hdeclare, fun outcome => ?_⟩
  cases outcome with
  | returned => exact publish_only hpublish
  | raised exc stored => trivial

theorem deadLetter_ack_only (message : Message) :
    (sendToDeadLetterQueue message >>= fun _ => ack).run.Only Effect.Messaging :=
  Py.only_bind (deadLetter_only trivial trivial) fun _ => ack_only trivial

theorem waitForCalibration_only (env : Env) (message : Message) (task : ExperimentTask) :
    (waitForCalibration env message task).run.Only Effect.Messaging := by
  unfold waitForCalibration
  split_ifs
  · exact publish_ack_only trivial trivial
  · refine ⟨trivial, fun _ => ?_⟩
    exact Py.only_bind (publish_only trivial) fun _ => publish_ack_only trivial trivial

end messaging

end QuantumPlatform.Orchestrator
