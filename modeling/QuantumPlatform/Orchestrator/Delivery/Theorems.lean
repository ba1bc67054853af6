import QuantumPlatform.Orchestrator.Delivery
import QuantumPlatform.Orchestrator.Execution.Lemmas
import QuantumPlatform.Orchestrator.Polling.Theorems
import QuantumPlatform.Orchestrator.Worker.Lemmas

namespace QuantumPlatform.Orchestrator

open Process Python QuantumPlatform.Core

variable {settings : Settings} {incoming : IncomingMessage} {progress : Progress}

-- Inside handle_message, with nothing handed over yet.
def Progress.Working (progress : Progress) : Prop :=
  progress.entered = true ∧ progress.handed = false ∧ progress.acked = false

theorem Progress.Working.allowed (hworking : progress.Working) (op : Effect)
    (hop : op.Computing) : progress.Allowed settings incoming op := by
  cases op <;> simp only [Effect.Computing] at hop <;>
    simp [Progress.Allowed, hworking.1]

theorem Progress.Working.after (hworking : progress.Working) (op : Effect)
    (hop : op.Computing) (answer : op.Ans) : (progress.after op answer).Working := by
  cases op <;> simp only [Effect.Computing] at hop <;> exact hworking

theorem done_of_error (progress : Progress) (exc : Exc) : Done progress (.error exc) := by
  intro h
  cases h

theorem ack_obeys (hhanded : progress.handed = true) (hacked : progress.acked = false) :
    (delivery settings incoming).Obeys Done progress ack.run := by
  refine ⟨⟨hhanded, hacked⟩, fun outcome _ => ?_⟩
  cases outcome with
  | returned =>
      intro _
      simp [delivery, Progress.after, Outcome.stored]
  | raised exc stored => exact done_of_error _ exc

-- Publishing what takes over, and then acknowledging.
theorem publish_ack_obeys {queue : String} {message : Message}
    (hhanded : progress.handed = false) (hacked : progress.acked = false)
    (hpublishes : Publishes settings incoming progress queue message)
    (hover : handsOver queue message = true) :
    (delivery settings incoming).Obeys Done progress (publish queue message >>= fun _ => ack).run := by
  refine ⟨⟨hhanded, hacked, hpublishes⟩, fun outcome _ => ?_⟩
  cases outcome with
  | returned =>
      refine ack_obeys ?_ hacked
      simp [delivery, Progress.after, Outcome.stored, hover]
  | raised exc stored => exact done_of_error _ exc

theorem isTerminalResult_toJson (resultMessage : ExperimentResultMessage) :
    isTerminalResult { body := resultMessage.toJson } = resultMessage.terminal := rfl

theorem report_obeys (hworking : progress.Working) (task : ExperimentTask)
    (hparsed : ExperimentTask.fromJson incoming.body = .ok task)
    (resultMessage : ExperimentResultMessage)
    (hnamed : resultMessage.experimentId = task.experimentId)
    (hterminal : resultMessage.terminal = true) :
    (delivery settings incoming).Obeys Done progress
      (publishResultMessage resultMessage >>= fun _ => ack).run := by
  refine publish_ack_obeys hworking.2.1 hworking.2.2
    (.result hworking.1 task hparsed resultMessage hnamed (.inl hterminal)) ?_
  rw [handsOver, isTerminalResult_toJson, hterminal, Bool.or_true]

theorem deadLetter_ack_obeys (hhanded : progress.handed = false) (hacked : progress.acked = false)
    (hpublishes : ∀ later : Progress, later.entered = progress.entered →
      Publishes settings incoming later DEAD_LETTER_QUEUE_NAME
        (deadLetterCopy incoming.toMessage)) :
    (delivery settings incoming).Obeys Done progress
      (sendToDeadLetterQueue incoming.toMessage >>= fun _ => ack).run := by
  refine ⟨trivial, fun outcome _ => ?_⟩
  cases outcome with
  | returned => exact publish_ack_obeys hhanded hacked (hpublishes _ rfl) rfl
  | raised exc stored => exact done_of_error _ exc

-- The retry path: the sleep, the retry copy, the ack.
theorem scheduleRetry_ack_obeys (hredelivered : incoming.redelivered = true)
    (hbelow : getRetryCount incoming.toMessage < MAX_RETRIES) :
    (delivery settings incoming).Obeys Done {}
      (scheduleRetry incoming.toMessage TASK_QUEUE_NAME >>= fun _ => ack).run := by
  refine ⟨.inr rfl, fun _ _ => ?_⟩
  exact publish_ack_obeys rfl rfl (.retry hredelivered hbelow rfl) rfl

-- A redelivered message is dead-lettered or retried, and then acknowledged.
theorem consume_redelivered (env : Env) (hredelivered : incoming.redelivered = true) :
    consume env incoming =
      if getRetryCount incoming.toMessage ≥ MAX_RETRIES then
        sendToDeadLetterQueue incoming.toMessage >>= fun _ => ack
      else scheduleRetry incoming.toMessage TASK_QUEUE_NAME >>= fun _ => ack := by
  unfold consume handleRedelivery
  rw [hredelivered]
  simp only [Bool.not_true, Bool.false_eq_true, if_false]
  split_ifs with hspent
  · rw [bind_assoc]
    rfl
  · rw [bind_assoc]
    rfl

theorem consume_redelivered_obeys (env : Env) (hredelivered : incoming.redelivered = true) :
    (delivery env.settings incoming).Obeys Done {} (consume env incoming).run := by
  rw [consume_redelivered env hredelivered]
  split_ifs with hspent
  · exact deadLetter_ack_obeys rfl rfl fun later _ => .exhausted hredelivered hspent
  · exact scheduleRetry_ack_obeys hredelivered (by omega)

section computing

variable {State : Type} {monitor : Monitor sig State} {inv : State → Prop}

-- Running a task keeps what each of its calls keeps.
theorem keeping_of_computing
    (hcall : ∀ op : Effect, op.Computing → ∀ state, inv state → monitor.allowed state op ∧
      ∀ answer, inv (monitor.next state op answer)) (env : Env) :
    KeepingOnce monitor inv (fun state _ => inv state) (fun state _ => inv state) env := by
  have honly : ∀ {α : Type} (program : Program sig α), program.Only Effect.Computing →
      ∀ state, inv state → monitor.Obeys (fun later _ => inv later) state program :=
    fun program hprogram state hinv => Monitor.Obeys.of_only
      (fun current op hcurrent hop => (hcall op hop current hcurrent).1)
      (fun current op hcurrent hop => (hcall op hop current hcurrent).2) hprogram hinv
  refine ⟨⟨fun _ _ hinv _ => hinv, ?_, ?_, ?_, ?_, ?_⟩, ?_⟩
  · intro state circuit hinv
    obtain ⟨hallowed, hnext⟩ := hcall (.submit circuit) trivial state hinv
    refine ⟨hallowed, fun answer _ => ?_⟩
    cases answer with
    | ok handle => exact hnext (.ok handle)
    | error exc => exact hnext (.error exc)
  · intro state topic payload hinv
    obtain ⟨hallowed, hnext⟩ := hcall (.kafkaSend topic payload) trivial state hinv
    refine ⟨hallowed, fun outcome _ => ?_⟩
    cases outcome with
    | returned => exact hnext .returned
    | raised exc stored =>
        change if exc.isException then _ else _
        split_ifs
        · exact hnext (.raised exc stored)
        · exact hnext (.raised exc stored)
  · intro state hinv
    obtain ⟨hallowed, hnext⟩ := hcall .utcnow trivial state hinv
    exact ⟨hallowed, fun now _ => hnext now⟩
  · intro state hinv
    obtain ⟨hallowed, hnext⟩ := hcall .monotonic trivial state hinv
    exact ⟨hallowed, fun now _ => hnext now⟩
  · intro state handle hinv
    refine (honly _ (waitForResult_only _ _ _ _ _ _ _) state hinv).mono
      fun later outcome hlater => ?_
    obtain ⟨result, waiting⟩ := outcome
    rcases result with exc | result
    · exact hlater
    · simp only
      split <;> exact hlater
  · intro state handle hinv
    have hwait := honly _ (waitForResult_only env.fuel env.settings.backendName handle
      executionConfig {} false none) state hinv
    rw [waitOnce, Py.run_lift_bind]
    refine hwait.bind fun later outcome hlater => ?_
    obtain ⟨result, waiting⟩ := outcome
    cases result with
    | ok result => exact hlater
    | error exc => exact hlater

-- Whatever it ends with, the run of a task leaves `inv` as it was.
theorem executeTask_computing
    (hcall : ∀ op : Effect, op.Computing → ∀ state, inv state → monitor.allowed state op ∧
      ∀ answer, inv (monitor.next state op answer)) (env : Env) (task : ExperimentTask)
    {state : State} (hinv : inv state) :
    monitor.Obeys (fun later _ => inv later) state (executeTask env task).run :=
  ((keeping_of_computing hcall env).executeTask task state hinv).mono fun later result hlater => by
    cases result <;> exact hlater

end computing

section execution

variable {env : Env} (hworking : progress.Working) (task : ExperimentTask)
  (hparsed : ExperimentTask.fromJson incoming.body = .ok task)

include hworking hparsed

theorem runAndReport_obeys :
    (delivery env.settings incoming).Obeys Done progress (runAndReport env task).run := by
  have hcall : ∀ op : Effect, op.Computing → ∀ progress : Progress, progress.Working →
      (delivery env.settings incoming).allowed progress op ∧
        ∀ answer, ((delivery env.settings incoming).next progress op answer).Working :=
    fun op hop progress hworking => ⟨hworking.allowed op hop, hworking.after op hop⟩
  refine runAndReport_rule (executeTask_computing hcall env task hworking) ?_ ?_
    fun later exc _ _ => done_of_error later exc
  · intro later value hlater
    exact report_obeys hlater task hparsed (completedResult task value) rfl rfl
  · intro later exc hlater _
    exact report_obeys hlater task hparsed (failedResult task exc.message) rfl rfl

-- A waiting notice is not terminal, so the wait copy is what takes over.
theorem waitForCalibration_obeys :
    (delivery env.settings incoming).Obeys Done progress
      (waitForCalibration env incoming.toMessage task).run := by
  have hlater : Progress.Working { progress with slept := none } := hworking
  unfold waitForCalibration
  split_ifs with hspent
  · exact report_obeys hworking task hparsed _ rfl rfl
  · refine ⟨hworking.1, fun _ _ => ?_⟩
    refine ⟨⟨hworking.2.1, hworking.2.2, ?_⟩, fun outcome _ => ?_⟩
    · exact .result hlater.1 task hparsed (waitingResult task) rfl (.inr rfl)
    · cases outcome with
      | raised exc stored => exact done_of_error _ exc
      | returned =>
          refine publish_ack_obeys ?_ hworking.2.2 ?_ rfl
          · have hwaiting : isTerminalResult { body := (waitingResult task).toJson } = false := rfl
            simp [delivery, Progress.after, handsOver, hwaiting, hworking.2.1]
          · exact .wait hworking.1 task hparsed (by omega)

theorem handleTask_obeys :
    (delivery env.settings incoming).Obeys Done progress
      (handleTask env incoming.toMessage task).run := by
  refine @handleTask_rule _ _ _ _ _ _ Progress.Working _ ?_ ?_ ?_ ?_ ?_ hworking
  · intro current hcurrent
    refine ⟨hcurrent.1, fun answer _ => ?_⟩
    cases answer with
    | ok observation => exact hcurrent
    | error exc => exact done_of_error _ exc
  · intro current hcurrent
    exact ⟨hcurrent.1, fun _ _ => hcurrent⟩
  · intro current error hcurrent
    exact report_obeys hcurrent task hparsed (failedResult task error) rfl rfl
  · intro current hcurrent
    exact waitForCalibration_obeys hcurrent task hparsed
  · intro current hcurrent
    exact runAndReport_obeys hcurrent task hparsed

end execution

theorem handleMessage_obeys (env : Env) (hfresh : incoming.redelivered = false) :
    (delivery env.settings incoming).Obeys Done {}
      (handleMessage env incoming.toMessage).run := by
  refine ⟨⟨hfresh, rfl, rfl⟩, fun _ _ => ?_⟩
  have hworking : Progress.Working { entered := true } := ⟨rfl, rfl, rfl⟩
  cases hparsed : ExperimentTask.fromJson incoming.body with
  | ok task => exact handleTask_obeys hworking task hparsed
  | error exc =>
      exact deadLetter_ack_obeys rfl rfl fun later hentered => .malformed hentered exc hparsed

-- What the worker does with any one message stays within the contract.
theorem consume_obeys (env : Env) (incoming : IncomingMessage) :
    (delivery env.settings incoming).Obeys Done {} (consume env incoming).run := by
  cases hredelivered : incoming.redelivered with
  | true => exact consume_redelivered_obeys env hredelivered
  | false =>
      unfold consume handleRedelivery
      rw [hredelivered]
      exact handleMessage_obeys env hredelivered

end QuantumPlatform.Orchestrator
