import QuantumPlatform.Broker.Reports

namespace QuantumPlatform

open Process Python Orchestrator

-- Where the handling of a message is that no worker has crashed over: it has
-- published nothing yet, or a waiting notice only, or something that takes over,
-- or it has acknowledged the message.
inductive Script where
  | working
  | noticed
  | handed
  | acked
deriving DecidableEq

def Script.taken : Script → Bool
  | .handed => true
  | .acked => true
  | _ => false

-- The broker and the database do what they are asked.
def Succeeds : (op : Effect) → op.Ans → Prop
  | .publish _ _, outcome => outcome = Outcome.returned
  | .declareQueue _, outcome => outcome = Outcome.returned
  | .ack, outcome => outcome = Outcome.returned
  | .calibrationGet _, answer => ∃ observation, answer = Except.ok observation
  | _, _ => True

-- The six exits of handle_message, by what they publish.
inductive Writes (settings : Settings) (message : Message) : Script → String → Message → Prop where
  | malformed (exc : Exc) (unparsed : ExperimentTask.fromJson message.body = .error exc) :
      Writes settings message .working DEAD_LETTER_QUEUE_NAME (deadLetterCopy message)
  | terminal (task : ExperimentTask) (parsed : ExperimentTask.fromJson message.body = .ok task)
      (resultMessage : ExperimentResultMessage) (reports : Reports task resultMessage)
      (terminal : resultMessage.terminal = true) :
      Writes settings message .working RESULTS_QUEUE_NAME { body := resultMessage.toJson }
  | notice (task : ExperimentTask) (parsed : ExperimentTask.fromJson message.body = .ok task)
      (below : waitCount message < settings.calibrationMaxWaitAttempts) :
      Writes settings message .working RESULTS_QUEUE_NAME { body := (waitingResult task).toJson }
  | wait : Writes settings message .noticed WAIT_QUEUE_NAME
      (waitCopy message settings.calibrationWaitDelay)

def script (settings : Settings) (message : Message) : Monitor sig Script where
  allowed phase op := match op with
    | .publish queue sent => Writes settings message phase queue sent
    | .ack => phase = .handed
    | _ => phase = .working
  admits _ op answer := Succeeds op answer
  next phase op _ := match op with
    | .publish queue sent => if handsOver queue sent then .handed else .noticed
    | .ack => .acked
    | _ => phase

-- The handling ends with the ack, unless running the task raised what is no
-- Exception.
def Scripted (phase : Script) (result : Except Exc Unit) : Prop := match result with
  | .ok _ => phase = .acked
  | .error exc => exc.isException = false

section worker

variable {settings : Settings} {message : Message} {task : ExperimentTask} {phase : Script}
  {events : List (Event sig)}

theorem publish_ack_scripted {queue : String} {sent : Message}
    (hwrites : Writes settings message phase queue sent) (hover : handsOver queue sent = true) :
    (script settings message).Obeys Scripted phase (publish queue sent >>= fun _ => ack).run := by
  refine ⟨hwrites, fun outcome houtcome => ?_⟩
  obtain rfl : outcome = Outcome.returned := houtcome
  have hhanded : (script settings message).next phase (.publish queue sent) Outcome.returned =
      .handed := if_pos hover
  rw [hhanded]
  refine ⟨rfl, fun acked hacked => ?_⟩
  obtain rfl : acked = Outcome.returned := hacked
  rfl

theorem report_scripted (hparsed : ExperimentTask.fromJson message.body = .ok task)
    {resultMessage : ExperimentResultMessage} (hreports : Reports task resultMessage)
    (hterminal : resultMessage.terminal = true) :
    (script settings message).Obeys Scripted .working
      (publishResultMessage resultMessage >>= fun _ => ack).run := by
  refine publish_ack_scripted (.terminal task hparsed resultMessage hreports hterminal) ?_
  rw [handsOver, isTerminalResult_toJson, hterminal, Bool.or_true]

theorem script_computing (op : Effect) (hop : op.Computing) (phase : Script)
    (hphase : phase = .working) : (script settings message).allowed phase op ∧
      ∀ answer, (script settings message).next phase op answer = .working := by
  subst hphase
  cases op <;> first | exact ⟨rfl, fun _ => rfl⟩ | exact hop.elim

theorem runAndReport_scripted (env : Env)
    (hparsed : ExperimentTask.fromJson message.body = .ok task) :
    (script env.settings message).Obeys Scripted .working (runAndReport env task).run := by
  refine runAndReport_rule (executeTask_computing script_computing env task rfl) ?_ ?_ ?_
  · rintro later value rfl
    exact report_scripted hparsed (.completed value) rfl
  · rintro later exc rfl -
    exact report_scripted hparsed (.failed exc.message) rfl
  · exact fun later exc _ hexc => hexc

theorem waitForCalibration_scripted (env : Env)
    (hparsed : ExperimentTask.fromJson message.body = .ok task) :
    (script env.settings message).Obeys Scripted .working
      (waitForCalibration env message task).run := by
  unfold waitForCalibration
  split_ifs with hspent
  · exact report_scripted hparsed (.failed _) rfl
  · refine ⟨rfl, fun _ _ => ?_⟩
    refine ⟨.notice task hparsed (not_le.mp hspent), fun outcome houtcome => ?_⟩
    obtain rfl : outcome = Outcome.returned := houtcome
    exact publish_ack_scripted .wait rfl

theorem handleTask_scripted (env : Env)
    (hparsed : ExperimentTask.fromJson message.body = .ok task) :
    (script env.settings message).Obeys Scripted .working (handleTask env message task).run := by
  refine @handleTask_rule _ _ _ _ _ _ (fun phase => phase = .working) _ ?_ ?_ ?_ ?_ ?_ rfl
  · rintro current rfl
    refine ⟨rfl, fun answer hanswer => ?_⟩
    obtain ⟨observation, rfl⟩ := hanswer
    rfl
  · rintro current rfl
    exact ⟨rfl, fun _ _ => rfl⟩
  · rintro current error rfl
    exact report_scripted hparsed (.failed error) rfl
  · rintro current rfl
    exact waitForCalibration_scripted env hparsed
  · rintro current rfl
    exact runAndReport_scripted env hparsed

-- A message that is delivered for the first time goes through one of the exits.
theorem consume_scripted (env : Env) (incoming : IncomingMessage)
    (hfresh : incoming.redelivered = false) :
    (script env.settings incoming.toMessage).Obeys Scripted .working
      (consume env incoming).run := by
  unfold consume handleRedelivery
  rw [hfresh]
  refine ⟨rfl, fun _ _ => ?_⟩
  cases hparsed : ExperimentTask.fromJson incoming.body with
  | ok task => exact handleTask_scripted env hparsed
  | error exc =>
      refine ⟨rfl, fun declared hdeclared => ?_⟩
      obtain rfl : declared = Outcome.returned := hdeclared
      exact publish_ack_scripted (.malformed exc hparsed) rfl

end worker

-- The ack is the last thing that happens, and there is no other.
def AckedOnce (events : List (Event sig)) : Prop :=
  ∃ before, events = before ++ [⟨.ack, Outcome.returned⟩] ∧ ∀ event ∈ before, event.1 ≠ .ack

section ack

variable {settings : Settings} {message : Message} {phase : Script} {events : List (Event sig)}
  {op : Effect} {answer : op.Ans}

theorem not_allowed_acked (hallowed : (script settings message).allowed .acked op) : False := by
  cases op with
  | publish queue sent => cases hallowed
  | _ => cases hallowed

theorem next_acked (hallowed : (script settings message).allowed phase op)
    (hnext : (script settings message).next phase op answer = .acked) : op = .ack := by
  cases op with
  | ack => rfl
  | publish queue sent =>
      change (if handsOver queue sent then Script.handed else .noticed) = .acked at hnext
      split_ifs at hnext
  | _ =>
      rw [show phase = .working from hallowed] at hnext
      cases hnext

-- Up to the ack no message is acknowledged.
theorem unacked_of_allows (hallows : (script settings message).Allows .working events)
    (hphase : (script settings message).after .working events ≠ .acked) :
    ∀ event ∈ events, event.1 ≠ .ack := by
  induction events using List.reverseRecOn with
  | nil => exact fun _ hmem => absurd hmem List.not_mem_nil
  | append_singleton before last ih =>
      obtain ⟨op, answer⟩ := last
      rw [Monitor.allows_append] at hallows
      rw [Monitor.after_append] at hphase
      have hbefore : (script settings message).after .working before ≠ .acked := by
        intro hacked
        have hallowed := hallows.2.1
        rw [hacked] at hallowed
        exact not_allowed_acked hallowed
      intro event hmem
      rcases List.mem_append.mp hmem with hold | hlast
      · exact ih hallows.1 hbefore event hold
      · rw [List.mem_singleton.mp hlast]
        rintro rfl
        exact hphase rfl

theorem ackedOnce_of_allows (hallows : (script settings message).Allows .working events)
    (hadmits : (script settings message).Admits .working events)
    (hphase : (script settings message).after .working events = .acked) : AckedOnce events := by
  induction events using List.reverseRecOn with
  | nil => cases hphase
  | append_singleton before last ih =>
      obtain ⟨op, answer⟩ := last
      rw [Monitor.allows_append] at hallows
      rw [Monitor.admits_append] at hadmits
      rw [Monitor.after_append] at hphase
      obtain rfl := next_acked hallows.2.1 hphase
      obtain rfl : answer = Outcome.returned := hadmits.2.1
      refine ⟨before, rfl, unacked_of_allows hallows.1 ?_⟩
      rw [show (script settings message).after .working before = .handed from hallows.2.1]
      exact nofun

end ack

end QuantumPlatform
