import QuantumPlatform.Orchestrator.Course
import QuantumPlatform.Orchestrator.Delivery.Theorems

namespace QuantumPlatform.Orchestrator

open Process Python QuantumPlatform.Core

section split

variable (env : Env)

theorem handleTask_course (message : Message) (task : ExperimentTask) :
    handleTask env message task =
      courseOfTask env message task >>= Course.follow env message := by
  unfold handleTask courseOfTask
  by_cases hvqe : task.algorithm.isStr "vqe" = true
  · rw [if_pos hvqe, if_pos hvqe, bind_assoc]
    congr 1
    funext observation
    rw [bind_assoc]
    congr 1
    funext decision
    cases decision with
    | allow => rfl
    | reject => rfl
    | wait =>
        change waitForCalibration env message task = _
        unfold waitForCalibration
        split_ifs <;> rfl
  · rw [if_neg hvqe, if_neg hvqe]
    rfl

theorem handleMessage_course (message : Message) :
    handleMessage env message = courseOfMessage env message >>= Course.follow env message := by
  unfold handleMessage courseOfMessage
  cases ExperimentTask.fromJson message.body with
  | error exc => rfl
  | ok task =>
      simp only [handleTask_course]
      exact (bind_assoc _ _ _).symm

-- What the loop does is to choose a course and to follow it.
theorem consume_course (incoming : IncomingMessage) :
    consume env incoming =
      chooseCourse env incoming >>= Course.follow env incoming.toMessage := by
  unfold consume chooseCourse
  rw [bind_assoc]
  congr 1
  funext shouldProcess
  cases shouldProcess with
  | false => rfl
  | true => exact handleMessage_course env incoming.toMessage

end split

-- Exactly at the limits the snapshot is fresh, and its rate too high.
theorem evaluate_cases (policy : CalibrationPolicy) (observation : CalibrationObservation)
    (now : Int) :
    policy.freshness < now - observation.observedAt ∧
        policy.evaluate (some observation) now = .wait ∨
      now - observation.observedAt ≤ policy.freshness ∧
        policy.rejectErrorRate ≤ observation.errorRate ∧
        policy.evaluate (some observation) now = .reject ∨
      now - observation.observedAt ≤ policy.freshness ∧
        observation.errorRate < policy.rejectErrorRate ∧
        policy.evaluate (some observation) now = .allow := by
  unfold CalibrationPolicy.evaluate
  by_cases hold : now - observation.observedAt > policy.freshness
  · exact .inl ⟨hold, if_pos hold⟩
  · by_cases hbad : observation.errorRate ≥ policy.rejectErrorRate
    · exact .inr (.inl ⟨not_lt.mp hold, hbad, (if_neg hold).trans (if_pos hbad)⟩)
    · exact .inr (.inr ⟨not_lt.mp hold, not_le.mp hbad, (if_neg hold).trans (if_neg hbad)⟩)

section justified

variable {env : Env} {message : Message} {task : ExperimentTask}

-- Nothing is asked of the calls and the answers, only of how it ends.
def chosen (settings : Settings) (message : Message) (before : List (Event sig)) :
    Except Exc Course → Prop
  | .ok course => course.Justified settings message before
  | .error _ => True

-- The wait exits, whatever made the policy say so.
theorem waiting_justified (hvqe : IsVqe message.body task) {before : List (Event sig)}
    (hunfit : ReadUnfit env.settings before) :
    (Monitor.recording (fun _ _ => True) fun _ _ _ => True).Obeys
      (fun before result => chosen env.settings message before result) before
      (if waitCount message ≥ env.settings.calibrationMaxWaitAttempts then return .exhausted task
        else return .waiting task : Py sig Course).run := by
  split_ifs with hspent
  · exact ⟨hvqe, hunfit, hspent⟩
  · exact ⟨hvqe, hunfit, not_le.mp hspent⟩

theorem courseOfTask_justified (hparsed : ExperimentTask.fromJson message.body = .ok task) :
    (Monitor.recording (fun _ _ => True) fun _ _ _ => True).Obeys
      (fun before result => chosen env.settings message before result) [⟨.handleMessage, ()⟩]
      (courseOfTask env message task).run := by
  unfold courseOfTask
  by_cases hvqe : task.algorithm.isStr "vqe" = true
  · rw [if_pos hvqe]
    refine ⟨trivial, fun answer _ => ?_⟩
    cases answer with
    | error exc => trivial
    | ok observation =>
        cases observation with
        | none => exact waiting_justified ⟨hparsed, hvqe⟩ .missing
        | some observation =>
            refine evaluateNow_rule trivial fun now _ => ?_
            rcases evaluate_cases (policy env) observation now with
              ⟨hold, hdecision⟩ | ⟨hrecent, hbad, hdecision⟩ | ⟨hrecent, hgood, hdecision⟩
            · rw [hdecision]
              exact waiting_justified ⟨hparsed, hvqe⟩ (.stale observation now hold)
            · rw [hdecision]
              exact ⟨⟨hparsed, hvqe⟩, observation, rfl, .fresh now hrecent, hbad⟩
            · rw [hdecision]
              exact ⟨hparsed, fun _ => ⟨observation, .fresh now hrecent, hgood⟩⟩
  · rw [if_neg hvqe]
    exact ⟨hparsed, fun h => absurd h hvqe⟩

theorem courseOfMessage_justified (env : Env) (message : Message) :
    (Monitor.recording (fun _ _ => True) fun _ _ _ => True).Obeys
      (fun before result => chosen env.settings message before result) []
      (courseOfMessage env message).run := by
  refine ⟨trivial, fun _ _ => ?_⟩
  cases hparsed : ExperimentTask.fromJson message.body with
  | error exc => trivial
  | ok task => exact courseOfTask_justified hparsed

-- A redelivery is dealt with before handle_message.
theorem chooseCourse_redelivered (env : Env) {incoming : IncomingMessage}
    (hredelivered : incoming.redelivered = true) :
    chooseCourse env incoming =
      if getRetryCount incoming.toMessage ≥ MAX_RETRIES then
        sendToDeadLetterQueue incoming.toMessage >>= fun _ => return .skipped
      else scheduleRetry incoming.toMessage TASK_QUEUE_NAME >>= fun _ => return .skipped := by
  unfold chooseCourse handleRedelivery
  rw [hredelivered]
  simp only [Bool.not_true, Bool.false_eq_true, if_false]
  split_ifs with hspent
  · rw [bind_assoc]
    rfl
  · rw [bind_assoc]
    rfl

theorem chooseCourse_fresh (env : Env) {incoming : IncomingMessage}
    (hfresh : incoming.redelivered = false) :
    chooseCourse env incoming = courseOfMessage env incoming.toMessage := by
  unfold chooseCourse handleRedelivery
  rw [hfresh]
  rfl

theorem skipped_of_returns {α : Type} {body : Py sig α} {before : List (Event sig)}
    {course : Course}
    (hreturns : (body >>= fun _ => return .skipped).run.Returns before (.ok course)) :
    course = .skipped := by
  obtain ⟨value, rest, hrest⟩ := Py.returns_ok hreturns
  obtain ⟨-, hcourse⟩ := (Program.returns_ret _ _ _).mp hrest
  exact Except.ok.inj hcourse

-- A course is taken for its reasons.
theorem justified_of_returns {incoming : IncomingMessage} {before : List (Event sig)}
    {course : Course} (hreturns : (chooseCourse env incoming).run.Returns before (.ok course)) :
    course.Justified env.settings incoming.toMessage before := by
  cases hredelivered : incoming.redelivered with
  | false =>
      rw [chooseCourse_fresh env hredelivered] at hreturns
      have hchosen := ((courseOfMessage_justified env incoming.toMessage).trace hreturns
        (Monitor.admits_all (fun _ _ _ => trivial) _ _)).2
      rw [Monitor.after_recording] at hchosen
      exact hchosen
  | true =>
      rw [chooseCourse_redelivered env hredelivered] at hreturns
      have hskipped : course = .skipped := by
        split_ifs at hreturns with hspent
        · exact skipped_of_returns hreturns
        · exact skipped_of_returns hreturns
      rw [hskipped]
      trivial

end justified

section reschedule

variable {env : Env} {incoming : IncomingMessage} {events : List (Event sig)} {message : Message}

def Effect.Kept (op : Effect) : Prop := ∀ message, op ≠ .publish WAIT_QUEUE_NAME message

theorem kept_of_ne {queue : String} (hqueue : queue ≠ WAIT_QUEUE_NAME) (message : Message) :
    Effect.Kept (.publish queue message) :=
  fun _ hop => hqueue (Effect.publish.inj hop).1

theorem deadLetter_kept (message : Message) :
    (sendToDeadLetterQueue message).run.Only Effect.Kept :=
  deadLetter_only nofun (kept_of_ne (by decide) _)

theorem report_kept (resultMessage : ExperimentResultMessage) :
    (publishResultMessage resultMessage >>= fun _ => ack).run.Only Effect.Kept :=
  publish_ack_only (kept_of_ne (by decide) _) nofun

theorem executeTask_only (env : Env) (task : ExperimentTask) :
    (executeTask env task).run.Only Effect.Computing := by
  have hcall : ∀ op : Effect, op.Computing → ∀ state : Unit, True →
      (@Monitor.stateless sig Effect.Computing).allowed state op ∧ ∀ _ : op.Ans, True :=
    fun op hop _ _ => ⟨hop, fun _ => trivial⟩
  have hobeys : (@Monitor.stateless sig Effect.Computing).Obeys (fun _ _ => True) ()
      (executeTask env task).run :=
    executeTask_computing hcall env task trivial
  exact hobeys.only

theorem runAndReport_kept (env : Env) (task : ExperimentTask) :
    (runAndReport env task).run.Only Effect.Kept := by
  have hexecute : (executeTask env task).run.Only Effect.Kept := by
    refine (executeTask_only env task).mono fun op hop message => ?_
    rintro rfl
    exact hop
  refine Py.only_bind ?_ fun resultMessage => report_kept resultMessage
  exact Py.only_exceptException (Py.only_bind hexecute fun _ => trivial) fun _ => trivial

theorem courseOfTask_kept (env : Env) (message : Message) (task : ExperimentTask) :
    (courseOfTask env message task).run.Only Effect.Kept := by
  unfold courseOfTask
  by_cases hvqe : task.algorithm.isStr "vqe" = true
  · rw [if_pos hvqe]
    have hread : (calibrationGet env.settings.backendName).run.Only Effect.Kept := by
      refine ⟨nofun, fun answer => ?_⟩
      cases answer <;> trivial
    refine Py.only_bind hread fun observation => ?_
    have hevaluate : ((policy env).evaluateNow observation).run.Only Effect.Kept := by
      cases observation with
      | none => trivial
      | some observation => exact ⟨nofun, fun _ => trivial⟩
    refine Py.only_bind hevaluate fun decision => ?_
    cases decision with
    | allow => trivial
    | reject => trivial
    | wait =>
        simp only
        split_ifs <;> trivial
  · rw [if_neg hvqe]
    trivial

theorem chooseCourse_kept (env : Env) (incoming : IncomingMessage) :
    (chooseCourse env incoming).run.Only Effect.Kept := by
  cases hredelivered : incoming.redelivered with
  | false =>
      rw [chooseCourse_fresh env hredelivered]
      refine ⟨nofun, fun _ => ?_⟩
      cases ExperimentTask.fromJson incoming.body with
      | error exc => trivial
      | ok task => exact courseOfTask_kept env incoming.toMessage task
  | true =>
      rw [chooseCourse_redelivered env hredelivered]
      split_ifs
      · refine Py.only_bind (deadLetter_kept _) fun _ => ?_
        trivial
      · have hretried : (scheduleRetry incoming.toMessage TASK_QUEUE_NAME).run.Only Effect.Kept :=
          ⟨nofun, fun _ => publish_only (kept_of_ne (by decide) _)⟩
        refine Py.only_bind hretried fun _ => ?_
        trivial

theorem follow_kept (env : Env) (message : Message) {course : Course}
    (hcourse : ∀ task, course ≠ .waiting task) :
    (course.follow env message).run.Only Effect.Kept := by
  cases course with
  | skipped => exact ack_only nofun
  | malformed => exact Py.only_bind (deadLetter_kept message) fun _ => ack_only nofun
  | rejected task observation =>
      refine Py.only_bind ?_ fun error => report_kept _
      cases observation <;> trivial
  | exhausted task => exact report_kept _
  | waiting task => exact absurd rfl (hcourse task)
  | executed task => exact runAndReport_kept env task

-- Only who has chosen to wait reschedules.
theorem waiting_of_reschedules {next : Outcome → Program sig (Except Exc Unit)}
    (htrace : (consume env incoming).run.Trace events
      (.call (.publish WAIT_QUEUE_NAME message) next)) :
    ∃ before task, before <+: events ∧
      (chooseCourse env incoming).run.Returns before (.ok (.waiting task)) := by
  rw [consume_course] at htrace
  rcases Py.trace_of_bind htrace with ⟨op, left, later, hchoosing, hrest⟩ | ⟨exc, -, hrest⟩ |
    ⟨before, course, after, rfl, hbefore, hafter⟩
  · cases hrest
    exact absurd rfl ((chooseCourse_kept env incoming).at hchoosing message)
  · cases hrest
  · cases course with
    | waiting task => exact ⟨before, task, List.prefix_append _ _, hbefore⟩
    | _ => exact absurd rfl ((follow_kept env incoming.toMessage (by simp)).at hafter message)

end reschedule

end QuantumPlatform.Orchestrator
