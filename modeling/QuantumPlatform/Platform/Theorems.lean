import QuantumPlatform.Platform
import QuantumPlatform.Api.Records.Theorems
import QuantumPlatform.Broker.Coverage
import QuantumPlatform.Broker.Schedules

namespace QuantumPlatform

open Process Python Orchestrator

section results

variable (experimentId : String)

def Mentions (body : Body) : Prop :=
  ∃ resultMsg, ExperimentResultMessage.fromJson body = .ok resultMsg ∧
    resultMsg.experimentId = .str experimentId

def Unmentioned (bodies : List Body) : Prop := ∀ body ∈ bodies, ¬ Mentions experimentId body

-- The last of these results that is about the experiment is terminal.
def EndsTerminal (bodies : List Body) : Prop :=
  ∃ (before : List Body) (resultMsg : ExperimentResultMessage) (rest : List Body),
    bodies = before ++ resultMsg.toJson :: rest ∧ resultMsg.experimentId = .str experimentId ∧
    resultMsg.terminal = true ∧ Unmentioned experimentId rest

variable {experimentId} {bodies : List Body} {resultMsg : ExperimentResultMessage}

theorem mentions_toJson :
    Mentions experimentId resultMsg.toJson ↔ resultMsg.experimentId = .str experimentId := by
  constructor
  · intro h
    obtain ⟨other, hdecoded, hnamed⟩ := h
    obtain rfl := Except.ok.inj ((ExperimentResultMessage.fromJson_toJson resultMsg).symm.trans hdecoded)
    exact hnamed
  · intro hnamed
    exact ⟨resultMsg, ExperimentResultMessage.fromJson_toJson resultMsg, hnamed⟩

theorem Unmentioned.append (hbodies : Unmentioned experimentId bodies) {body : Body}
    (hbody : ¬ Mentions experimentId body) : Unmentioned experimentId (bodies ++ [body]) := by
  intro other hmem
  rcases List.mem_append.mp hmem with hold | hnew
  · exact hbodies other hold
  · rw [List.mem_singleton.mp hnew]
    exact hbody

theorem EndsTerminal.append (hends : EndsTerminal experimentId bodies) {body : Body}
    (hbody : ¬ Mentions experimentId body) : EndsTerminal experimentId (bodies ++ [body]) := by
  obtain ⟨before, resultMsg, rest, rfl, hnamed, hterminal, hrest⟩ := hends
  exact ⟨before, resultMsg, rest ++ [body], by simp, hnamed, hterminal, hrest.append hbody⟩

theorem endsTerminal_append (bodies : List Body) (hnamed : resultMsg.experimentId = .str experimentId)
    (hterminal : resultMsg.terminal = true) :
    EndsTerminal experimentId (bodies ++ [resultMsg.toJson]) :=
  ⟨bodies, resultMsg, [], rfl, hnamed, hterminal, fun _ h => absurd h (List.not_mem_nil)⟩

-- Taking the first result leaves a last terminal one, or it was that one.
theorem EndsTerminal.cons {body : Body} (hends : EndsTerminal experimentId (body :: bodies)) :
    EndsTerminal experimentId bodies ∨ Unmentioned experimentId bodies ∧
      ∃ resultMsg : ExperimentResultMessage, body = resultMsg.toJson ∧
        resultMsg.experimentId = .str experimentId ∧ resultMsg.terminal = true := by
  obtain ⟨before, resultMsg, rest, hsplit, hnamed, hterminal, hrest⟩ := hends
  cases before with
  | nil =>
      obtain ⟨rfl, rfl⟩ := List.cons.inj hsplit
      exact .inr ⟨hrest, resultMsg, rfl, hnamed, hterminal⟩
  | cons first before =>
      obtain ⟨rfl, rfl⟩ := List.cons.inj hsplit
      exact .inl ⟨before, resultMsg, rest, rfl, hnamed, hterminal, hrest⟩

end results

section submission

theorem next_publishTask (opened : Option String) (queue : String) (body : Body)
    (outcome : Outcome) :
    submission.next opened (.publishTask queue body) outcome = none ∨
      submission.next opened (.publishTask queue body) outcome = opened := by
  change (if _ then _ else _) = _ ∨ (if _ then _ else _) = _
  split_ifs
  · exact .inl rfl
  · exact .inr rfl

-- A call of submit_experiment leaves no record open.
theorem submitExperiment_obeys (request : Api.ExperimentRequest) :
    submission.Obeys (fun opened _ => opened = none) none (Api.submitExperiment request).run := by
  refine ⟨trivial, fun (experimentId : String) _ => ⟨trivial, fun (submittedAt : Api.DateTime) _ => ?_⟩⟩
  refine ⟨.inl ⟨rfl, rfl⟩, fun saved hsaved => ?_⟩
  obtain rfl : saved = Outcome.returned := hsaved
  refine ⟨⟨rfl, experimentId, _, rfl, rfl, rfl⟩, fun outcome hadmits => ?_⟩
  cases outcome with
  | returned => rfl
  | raised exc stored =>
      have hexc : exc.isException = true := hadmits exc stored rfl
      have hopened := next_publishTask (some experimentId) TASK_QUEUE_NAME (ExperimentTask.toJson
        ⟨.str experimentId, .str request.algorithm.value, request.modelDump⟩) (.raised exc stored)
      change submission.Obeys _ _ (if exc.isException then _ else _)
      rw [if_pos hexc]
      refine ⟨trivial, fun (completedAt : Api.DateTime) _ => ⟨.inr ⟨rfl, hopened⟩, ?_⟩⟩
      intro failed hfailed
      obtain rfl : failed = Outcome.returned := hfailed
      rfl

end submission

section store

variable (store : Api.InMemoryExperimentStore) {experimentId : String}
  {resultMsg : ExperimentResultMessage}

theorem get_apply_of_ne (now : Api.DateTime) (hother : resultMsg.experimentId ≠ .str experimentId) :
    (store.apply resultMsg now).get experimentId = store.get experimentId := by
  rw [Api.InMemoryExperimentStore.apply_eq]
  split
  case h_1 existing status hlookup hstatus =>
    obtain ⟨found, hkey, hget⟩ :=
      (Api.InMemoryExperimentStore.lookup_eq_some store _ existing).mp hlookup
    have hid : existing.id = found := store.keyed found existing hget
    refine Api.InMemoryExperimentStore.get_save_of_ne store _ experimentId fun hsame => hother ?_
    rw [hkey, hsame]
    exact congrArg Json.str hid.symm
  case h_2 => rfl

theorem recognised_of_terminal (hterminal : resultMsg.terminal = true) :
    ∃ status, Api.recognised resultMsg.status = some status := by
  obtain ⟨named, status, result, error⟩ := resultMsg
  simp only [ExperimentResultMessage.terminal, Bool.or_eq_true] at hterminal
  cases status with
  | str text =>
      rcases hterminal with hcompleted | hfailed
      · rw [of_decide_eq_true hcompleted]
        exact ⟨_, rfl⟩
      · rw [of_decide_eq_true hfailed]
        exact ⟨_, rfl⟩
  | _ => simp [Json.isStr] at hterminal

-- Applying a terminal result leaves the record terminal, if there is one.
theorem terminal_apply (now : Api.DateTime) (hnamed : resultMsg.experimentId = .str experimentId)
    (hterminal : resultMsg.terminal = true) (experiment : Api.ExperimentResponse)
    (hget : (store.apply resultMsg now).get experimentId = some experiment) :
    experiment.status.terminal = true := by
  rw [Api.InMemoryExperimentStore.apply_eq] at hget
  split at hget
  case h_1 existing status hlookup hstatus =>
    obtain ⟨found, hkey, hfound⟩ :=
      (Api.InMemoryExperimentStore.lookup_eq_some store _ existing).mp hlookup
    have hid : (existing.update status resultMsg now).id = found :=
      store.keyed found existing hfound
    obtain rfl : found = experimentId := Json.str.inj (hkey.symm.trans hnamed)
    rw [Api.InMemoryExperimentStore.get_save, if_pos hid.symm, Option.some_inj] at hget
    rw [← hget, ← hterminal]
    exact (Api.recognised_terminal resultMsg status hstatus).symm
  case h_2 hnone =>
    obtain ⟨status, hstatus⟩ := recognised_of_terminal hterminal
    have hlookup := (Api.InMemoryExperimentStore.lookup_eq_some store _ experiment).mpr
      ⟨experimentId, hnamed, hget⟩
    exact absurd hstatus (hnone experiment status hlookup)

end store

namespace Broker

variable {settings : Settings} {externals : Externals} {broker later : Broker} {label : Label}
  {experimentId : String} {consumed : Nat}

-- Some copy of the experiment's task still has to be worked on.
def Live (broker : Broker) (experimentId : String) : Prop :=
  ∃ (copy : Copy) (task : ExperimentTask), broker.Pending copy ∧
    ExperimentTask.fromJson copy.message.body = .ok task ∧ task.experimentId = .str experimentId

-- A waiting notice is only ever followed by the end of the task: without a
-- live copy the last result about the experiment is terminal.
def Flows (broker : Broker) (consumed : Nat) (experimentId : String) (settled : Prop) : Prop :=
  broker.Live experimentId ∨ EndsTerminal experimentId (broker.results.drop consumed) ∨
    Unmentioned experimentId (broker.results.drop consumed) ∧ settled

-- No delivery at a worker is of a well-formed task without retries left.
def Given (broker : Broker) : Prop :=
  ∀ delivery ∈ broker.inFlight, delivery.copy.redelivered = true →
    MAX_RETRIES ≤ getRetryCount delivery.copy.message →
    ∀ task, ExperimentTask.fromJson delivery.copy.message.body ≠ .ok task

theorem Step.live (last : Step settings externals broker label later)
    (hsound : broker.Sound settings) (hgiven : broker.Given)
    (hconsumed : consumed ≤ broker.results.length) (hlive : broker.Live experimentId) :
    later.Live experimentId ∨ EndsTerminal experimentId (later.results.drop consumed) := by
  obtain ⟨copy, task, hpending, hparsed, hnamed⟩ := hlive
  cases last.over hsound hpending with
  | pending other pending same =>
      refine .inl ⟨other, task, pending, ?_, hnamed⟩
      rw [same.2]
      exact hparsed
  | dead other dead same delivery running given rejected =>
      subst given
      rcases rejected with ⟨hredelivered, hspent⟩ | ⟨exc, hunparsed⟩
      · exact absurd hparsed (hgiven delivery running hredelivered hspent task)
      · rw [hparsed] at hunparsed
        cases hunparsed
  | settled found parsed resultMessage published terminal named =>
      obtain rfl : task = found := Except.ok.inj (hparsed.symm.trans parsed)
      rw [published, List.drop_append_of_le_length hconsumed]
      exact .inr (endsTerminal_append _ (named.trans hnamed) terminal)

theorem Step.flows (last : Step settings externals broker label later)
    (hsound : broker.Sound settings) (hgiven : broker.Given)
    (hconsumed : consumed ≤ broker.results.length) {settled : Prop}
    (hflows : broker.Flows consumed experimentId settled) :
    later.Flows consumed experimentId settled := by
  rcases hflows with hlive | hrest
  · rcases last.live hsound hgiven hconsumed hlive with hlater | hends
    · exact .inl hlater
    · exact .inr (.inl hends)
  · rcases last.results hsound with hsame | ⟨copy, task, resultMessage, hparsed, hadded, hnamed, hlast⟩
    · refine .inr ?_
      rw [hsame]
      exact hrest
    · rw [Flows, hadded, List.drop_append_of_le_length hconsumed]
      by_cases hmentioned : resultMessage.experimentId = .str experimentId
      · rcases hlast with hterminal | hpending
        · exact .inr (.inl (endsTerminal_append _ hmentioned hterminal))
        · exact .inl ⟨copy, task, hpending, hparsed, hnamed.symm.trans hmentioned⟩
      · have hother : ¬ Mentions experimentId resultMessage.toJson :=
          fun h => hmentioned (mentions_toJson.mp h)
        rcases hrest with hends | ⟨hunmentioned, hover⟩
        · exact .inr (.inl (hends.append hother))
        · exact .inr (.inr ⟨hunmentioned.append hother, hover⟩)

theorem Flows.mono {settled other : Prop} (hflows : broker.Flows consumed experimentId settled)
    (himp : settled → other) : broker.Flows consumed experimentId other := by
  rcases hflows with hlive | hends | ⟨hunmentioned, hover⟩
  · exact .inl hlive
  · exact .inr (.inl hends)
  · exact .inr (.inr ⟨hunmentioned, himp hover⟩)

theorem Step.given (last : Step settings externals broker label later) (hgiven : broker.Given)
    (hunspent : ∀ copy, label = .deliver copy → copy.redelivered = true →
      MAX_RETRIES ≤ getRetryCount copy.message →
      ∀ task, ExperimentTask.fromJson copy.message.body ≠ .ok task) : later.Given := by
  intro delivery hmem
  cases last with
  | deliver copy others fuel queued =>
      rcases Multiset.mem_cons.mp hmem with rfl | hold
      · exact hunspent copy rfl
      · exact hgiven delivery hold
  | perform copy progress op next answer others running =>
      rcases Multiset.mem_cons.mp hmem with rfl | hold
      · exact hgiven ⟨copy, progress, .call op next⟩
          (head_mem running)
      · exact hgiven delivery (others_mem running hold)
  | finish copy progress others running =>
      exact hgiven delivery (others_mem running hmem)
  | crash crashed others running =>
      rw [requeue_inFlight] at hmem
      exact hgiven delivery (others_mem running hmem)
  | publish | expire => exact hgiven delivery hmem

theorem Step.results_length (last : Step settings externals broker label later)
    (hsound : broker.Sound settings) : broker.results.length ≤ later.results.length := by
  rcases last.results hsound with hsame | ⟨copy, task, resultMessage, -, hadded, -⟩
  · rw [hsame]
  · rw [hadded, List.length_append]
    omega

end Broker

namespace Platform

def Closed (platform : Platform) (experimentId : String) : Prop :=
  ∀ experiment, platform.store.get experimentId = some experiment →
    experiment.status.terminal = true

def Open (platform : Platform) (experimentId : String) : Prop :=
  ∃ call ∈ platform.calls, call.opened = some experimentId

structure Sound (settings : Settings) (platform : Platform) : Prop where
  broker : platform.broker.Sound settings
  calls : ∀ call ∈ platform.calls,
    submission.Obeys (fun opened _ => opened = none) call.opened call.rest
  given : platform.broker.Given
  consumed : platform.consumed ≤ platform.broker.results.length
  flows : ∀ experimentId, platform.broker.Flows platform.consumed experimentId
    (platform.Closed experimentId ∨ platform.Open experimentId)

variable {settings : Settings} {externals : Externals} {platform next : Platform}
  {experimentId : String} {label : Label} {labels : List Label}

theorem Sound.accounted (hsound : platform.Sound settings) (experimentId : String) :
    platform.Accounted experimentId := by
  intro experiment hget hrunning
  rcases hsound.flows experimentId with ⟨copy, task, hpending, hparsed, hnamed⟩ |
    ⟨before, resultMsg, rest, hwaiting, hnamed, hterminal, -⟩ | ⟨-, hclosed | hopen⟩
  · refine .inl ⟨copy, task, ?_, hparsed, hnamed⟩
    rcases hpending with hmem | hmem | ⟨delivery, hmem, hcopy, hhanded⟩
    · exact .inl hmem
    · exact .inr (.inl hmem)
    · exact .inr (.inr ⟨delivery, hmem, hcopy, (hsound.broker delivery hmem).unacked hhanded⟩)
  · refine .inr (.inl ⟨resultMsg, ?_, hnamed, hterminal⟩)
    rw [waiting, hwaiting]
    exact List.mem_append_right _ (List.mem_cons_self)
  · have hover := hclosed experiment hget
    rw [hrunning] at hover
    cases hover
  · exact .inr (.inr hopen)

theorem Sound.broker_step (hsound : platform.Sound settings) {label : Broker.Label}
    {later : Broker} (last : Broker.Step settings externals platform.broker label later)
    (hunspent : (Label.broker label).Unspent) : Sound settings { platform with broker := later } where
  broker := last.sound hsound.broker
  calls := hsound.calls
  given := last.given hsound.given fun copy hlabel => by
    subst hlabel
    exact hunspent
  consumed := hsound.consumed.trans (last.results_length hsound.broker)
  flows experimentId := last.flows hsound.broker hsound.given hsound.consumed
    (hsound.flows experimentId)

theorem Sound.consume (hsound : platform.Sound settings) (body : Body)
    (resultMsg : ExperimentResultMessage) (now : Api.DateTime)
    (hwaiting : platform.broker.results[platform.consumed]? = some body)
    (hdecoded : ExperimentResultMessage.fromJson body = .ok resultMsg) :
    Sound settings { platform with
      store := platform.store.apply resultMsg now, consumed := platform.consumed + 1 } := by
  obtain ⟨hlt, hbody⟩ := List.getElem?_eq_some_iff.mp hwaiting
  refine ⟨hsound.broker, hsound.calls, hsound.given, hlt, fun experimentId => ?_⟩
  have hdrop : platform.broker.results.drop platform.consumed =
      body :: platform.broker.results.drop (platform.consumed + 1) := by
    rw [List.drop_eq_getElem_cons hlt, hbody]
  rcases hsound.flows experimentId with hlive | hends | ⟨hunmentioned, hover⟩
  · exact .inl hlive
  · rw [hdrop] at hends
    rcases hends.cons with hrest | ⟨hunmentioned, terminal, rfl, hnamed, hterminal⟩
    · exact .inr (.inl hrest)
    · -- the last terminal result has just been applied
      obtain rfl := Except.ok.inj
        ((ExperimentResultMessage.fromJson_toJson terminal).symm.trans hdecoded)
      exact .inr (.inr ⟨hunmentioned, .inl (terminal_apply platform.store now hnamed hterminal)⟩)
  · rw [hdrop] at hunmentioned
    have hother : resultMsg.experimentId ≠ .str experimentId := fun hnamed =>
      hunmentioned body (List.mem_cons_self) ⟨resultMsg, hdecoded, hnamed⟩
    refine .inr (.inr ⟨fun other hmem => hunmentioned other (List.mem_cons_of_mem _ hmem), ?_⟩)
    rcases hover with hclosed | hopen
    · refine .inl fun experiment hget => hclosed experiment ?_
      rw [← get_apply_of_ne platform.store now hother]
      exact hget
    · exact .inr hopen

section call

variable {opened : Option String} {op : Api.Effect} {rest : op.Ans → Api.Submission}
  {others : Multiset Call}

-- Replacing a call that keeps its record open, or has none, by another.
theorem Open.replace {other : Call} (running : platform.calls = ⟨opened, .call op rest⟩ ::ₘ others)
    (hopen : platform.Open experimentId) (hkept : opened = some experimentId →
      other.opened = some experimentId) :
    Open { platform with calls := other ::ₘ others } experimentId := by
  obtain ⟨call, hmem, hopened⟩ := hopen
  rw [running] at hmem
  rcases Multiset.mem_cons.mp hmem with rfl | hold
  · exact ⟨other, Multiset.mem_cons_self _ _, hkept hopened⟩
  · exact ⟨call, Multiset.mem_cons_of_mem hold, hopened⟩

-- After a save the record of another experiment is what it was, and the saved
-- one is open or terminal.
theorem over_save (experiment : Api.ExperimentResponse)
    (running : platform.calls = ⟨opened, .call op rest⟩ ::ₘ others) (other : Call)
    (hsaved : experiment.status = .queued ∧ opened = none ∧ other.opened = some experiment.id ∨
      experiment.status.terminal = true ∧ (opened = none ∨ opened = some experiment.id))
    (hover : platform.Closed experimentId ∨ platform.Open experimentId) :
    let later : Platform :=
      { platform with store := platform.store.save experiment, calls := other ::ₘ others }
    later.Closed experimentId ∨ later.Open experimentId := by
  by_cases hid : experimentId = experiment.id
  · rcases hsaved with ⟨-, -, hopened⟩ | ⟨hterminal, -⟩
    · exact .inr ⟨other, Multiset.mem_cons_self _ _, by rw [hopened, hid]⟩
    · refine .inl fun found hget => ?_
      rw [Api.InMemoryExperimentStore.get_save, if_pos hid, Option.some_inj] at hget
      rw [← hget]
      exact hterminal
  · rcases hover with hclosed | hopen
    · refine .inl fun found hget => hclosed found ?_
      rw [← Api.InMemoryExperimentStore.get_save_of_ne platform.store experiment experimentId hid]
      exact hget
    · have hkept : opened ≠ some experimentId := by
        rintro rfl
        rcases hsaved with ⟨-, hnone, -⟩ | ⟨-, hnone | hsame⟩
        · cases hnone
        · cases hnone
        · exact hid (Option.some.inj hsame)
      exact .inr (Open.replace running hopen fun h => absurd h hkept)

theorem Sound.replace (hsound : platform.Sound settings) {other : Call}
    (running : platform.calls = ⟨opened, .call op rest⟩ ::ₘ others)
    (hcalls : ∀ call ∈ other ::ₘ others,
      submission.Obeys (fun opened _ => opened = none) call.opened call.rest)
    (hsame : other.opened = opened) :
    Sound settings { platform with calls := other ::ₘ others } := by
  refine ⟨hsound.broker, hcalls, hsound.given, hsound.consumed, fun experimentId => ?_⟩
  refine (hsound.flows experimentId).mono fun hover => ?_
  rcases hover with hclosed | hopen
  · exact .inl hclosed
  · exact .inr (Open.replace running hopen fun h => hsame.trans h)

-- A stored publish puts a copy of the task into the queue.
theorem Sound.publish (hsound : platform.Sound settings) {other : Call} {task : ExperimentTask}
    {published : String} (running : platform.calls = ⟨some published, .call op rest⟩ ::ₘ others)
    (hcalls : ∀ call ∈ other ::ₘ others,
      submission.Obeys (fun opened _ => opened = none) call.opened call.rest)
    (hnamed : task.experimentId = .str published) :
    Sound settings { platform with
      calls := other ::ₘ others, broker := platform.broker.publish task.toJson } := by
  have last : Broker.Step settings default platform.broker _ _ := .publish _ task.toJson
  refine ⟨last.sound hsound.broker, hcalls, hsound.given, hsound.consumed, fun experimentId => ?_⟩
  rcases last.flows hsound.broker hsound.given hsound.consumed (hsound.flows experimentId) with
    hlive | hends | ⟨hunmentioned, hover⟩
  · exact .inl hlive
  · exact .inr (.inl hends)
  · by_cases hid : published = experimentId
    · refine .inl ⟨⟨{ body := task.toJson }, false, platform.broker.published.length⟩, task, ?_,
        ExperimentTask.fromJson_toJson task, by rw [hnamed, hid]⟩
      exact .inl (Multiset.mem_cons_self _ _)
    · rcases hover with hclosed | hopen
      · exact .inr (.inr ⟨hunmentioned, .inl hclosed⟩)
      · refine .inr (.inr ⟨hunmentioned, .inr (Open.replace running hopen fun h => ?_)⟩)
        exact absurd (Option.some.inj h) hid

theorem Sound.call (hsound : platform.Sound settings) (answer : op.Ans)
    (running : platform.calls = ⟨opened, .call op rest⟩ ::ₘ others)
    (hadmits : submission.admits opened op answer) :
    Sound settings { platform with
      store := platform.store.after op answer,
      calls := ⟨submission.next opened op answer, rest answer⟩ ::ₘ others,
      broker := brokerAfter platform.broker op answer } := by
  have hcall := hsound.calls _ (head_mem running)
  obtain ⟨hallowed, hnext⟩ := hcall
  have hcalls : ∀ call ∈ (⟨submission.next opened op answer, rest answer⟩ : Call) ::ₘ others,
      submission.Obeys (fun opened _ => opened = none) call.opened call.rest := by
    intro call hmem
    rcases Multiset.mem_cons.mp hmem with rfl | hold
    · exact hnext answer hadmits
    · exact hsound.calls call (others_mem running hold)
  cases op with
  | uuid4 => exact hsound.replace running hcalls rfl
  | utcnow => exact hsound.replace running hcalls rfl
  | storeSave experiment =>
      obtain rfl : answer = Outcome.returned := hadmits
      refine ⟨hsound.broker, hcalls, hsound.given, hsound.consumed, fun experimentId => ?_⟩
      refine (hsound.flows experimentId).mono fun hover =>
        over_save experiment running _ ?_ hover
      rcases hallowed with ⟨hqueued, hnone⟩ | hclosing
      · exact .inl ⟨hqueued, hnone, if_pos hqueued⟩
      · exact .inr hclosing
  | publishTask queue body =>
      obtain ⟨-, published, task, rfl, rfl, hnamed⟩ := hallowed
      by_cases hstored : Outcome.stored answer = true
      · have hbroker : brokerAfter platform.broker (.publishTask queue task.toJson) answer =
            platform.broker.publish task.toJson := if_pos hstored
        rw [hbroker]
        exact hsound.publish running hcalls hnamed
      · have hbroker : brokerAfter platform.broker (.publishTask queue task.toJson) answer =
            platform.broker := if_neg hstored
        rw [hbroker]
        exact hsound.replace running hcalls (if_neg hstored)
  | _ => exact hallowed.elim

end call

theorem Step.sound (last : Step settings externals platform label next)
    (hsound : platform.Sound settings) (hunspent : label.Unspent) : next.Sound settings := by
  cases last with
  | submit request =>
      refine ⟨hsound.broker, ?_, hsound.given, hsound.consumed, fun experimentId => ?_⟩
      · intro call hmem
        rcases Multiset.mem_cons.mp hmem with rfl | hold
        · exact submitExperiment_obeys request
        · exact hsound.calls call hold
      · refine (hsound.flows experimentId).mono fun hover => ?_
        rcases hover with hclosed | ⟨call, hmem, hopened⟩
        · exact .inl hclosed
        · exact .inr ⟨call, Multiset.mem_cons_of_mem hmem, hopened⟩
  | call opened op rest answer others running admits => exact hsound.call answer running admits
  | respond opened result others running =>
      have hnone : opened = none :=
        hsound.calls ⟨opened, .ret result⟩ (head_mem running)
      refine ⟨hsound.broker, ?_, hsound.given, hsound.consumed, fun experimentId => ?_⟩
      · intro call hmem
        exact hsound.calls call (others_mem running hmem)
      · refine (hsound.flows experimentId).mono fun hover => ?_
        rcases hover with hclosed | ⟨call, hmem, hopened⟩
        · exact .inl hclosed
        · rw [running] at hmem
          rcases Multiset.mem_cons.mp hmem with rfl | hold
          · rw [hnone] at hopened
            cases hopened
          · exact .inr ⟨call, hold, hopened⟩
  | consume body resultMsg now waiting decoded => exact hsound.consume body resultMsg now waiting decoded
  | broker label later internal last => exact hsound.broker_step last hunspent

theorem sound_empty (settings : Settings) : Platform.Sound settings {} where
  broker := Broker.sound_empty settings
  calls call hmem := absurd hmem (Multiset.notMem_zero _)
  given delivery hmem := absurd hmem (Multiset.notMem_zero _)
  consumed := le_refl 0
  flows experimentId := by
    refine .inr (.inr ⟨fun _ h => absurd h (List.not_mem_nil), .inl fun experiment hget => ?_⟩)
    change (none : Option Api.ExperimentResponse) = some experiment at hget
    cases hget

-- The platform after one call of submit_experiment whose publish succeeded.
def submitted (request : Api.ExperimentRequest) (experimentId : String)
    (submittedAt : Api.DateTime) : Platform :=
  let queued : Api.ExperimentResponse :=
    { id := experimentId, algorithm := request.algorithm, status := .queued,
      submittedAt := submittedAt, parameters := request.modelDump }
  let task : ExperimentTask :=
    ⟨.str experimentId, .str request.algorithm.value, request.modelDump⟩
  { store := (∅ : Api.InMemoryExperimentStore).save queued,
    broker := Broker.publish {} task.toJson }

theorem submitted_run (settings : Settings) (externals : Externals)
    (request : Api.ExperimentRequest) (experimentId : String) (submittedAt : Api.DateTime) :
    ∃ labels, Run (Step settings externals) {} labels (submitted request experimentId submittedAt) ∧
      ∀ label ∈ labels, label.Unspent := by
  have hsubmit : Run (Step settings externals) {} _ _ := .single (.submit {} request)
  have hid : Run (Step settings externals) {} _ _ :=
    hsubmit.step (.call _ _ .uuid4 _ experimentId 0 rfl trivial)
  have hnow : Run (Step settings externals) {} _ _ :=
    hid.step (.call _ _ .utcnow _ submittedAt 0 rfl trivial)
  have hsave : Run (Step settings externals) {} _ _ :=
    hnow.step (.call _ _ (.storeSave _) _ Outcome.returned 0 rfl rfl)
  have hpublish : Run (Step settings externals) {} _ _ :=
    hsave.step (.call _ _ (.publishTask _ _) _ Outcome.returned 0 rfl
      fun _ _ h => by cases h)
  have hrespond : Run (Step settings externals) {} _ _ :=
    hpublish.step (.respond _ _ _ 0 rfl)
  refine ⟨_, hrespond, fun label hlabel => ?_⟩
  simp only [List.append_assoc, List.mem_append, List.mem_cons, List.not_mem_nil,
    or_false] at hlabel
  rcases hlabel with rfl | rfl | rfl | rfl | rfl | rfl
  all_goals trivial

theorem published_run {broker later : Broker} {labels : List Broker.Label}
    (run : Run (Broker.Step settings externals) broker labels later) :
    broker.published.length ≤ later.published.length := by
  induction run with
  | start => exact le_refl _
  | step _ last ih =>
      rcases last.published with hsame | ⟨body, -, hadded⟩
      · rw [hsame]
        exact ih
      · rw [hadded, List.length_append]
        omega

-- A run of the broker in which the API publishes nothing is one of the platform.
theorem lift_run {broker later : Broker} {labels : List Broker.Label}
    (run : Run (Broker.Step settings externals) broker labels later)
    (hquiet : later.published.length ≤ broker.published.length) (platform : Platform)
    (hbroker : platform.broker = broker) :
    Run (Step settings externals) platform (labels.map .broker)
      { platform with broker := later } := by
  induction run with
  | start =>
      subst hbroker
      exact .start
  | @step labels state next label run last ih =>
      have hgrown := published_run run
      rw [List.map_append]
      rcases last.published with hsame | ⟨body, -, hadded⟩
      · rw [hsame] at hquiet
        refine .step (ih hquiet) (.broker _ label next (fun body hlabel => ?_) last)
        subst hlabel
        cases last
        simp [Broker.publish] at hsame
      · rw [hadded, List.length_append, List.length_singleton] at hquiet
        omega

-- As long as no well-formed task is delivered with its retries used up, no
-- experiment is left without an end.
theorem run_accounted (run : Run (Step settings externals) {} labels platform)
    (hunspent : ∀ label ∈ labels, label.Unspent) (experimentId : String) :
    platform.Accounted experimentId := by
  have hkeep : ∀ (state : Platform) (label : Label) (later : Platform), state.Sound settings →
      label.Unspent → Step settings externals state label later → later.Sound settings :=
    fun _ _ _ hsound hlabel last => last.sound hsound hlabel
  exact (run.invariant hkeep hunspent (sound_empty settings)).accounted experimentId

section example_run

private def groverRequest : Api.ExperimentRequest :=
  .grover ⟨["11"], 1024, by decide, by decide⟩

-- A worker dies with the task, and the next one queues its retry copy.
theorem run_accounted_retried : ∃ labels platform,
    Run (Step {} default) {} labels platform ∧
    (∃ copy, .broker (.deliver copy) ∈ labels ∧ copy.redelivered = true) ∧
    (platform.store.get "e1").map (fun experiment => experiment.status) = some .queued ∧
    platform.broker.taskQueue.map (fun copy => getRetryCount copy.message) = {1} ∧
    platform.Accounted "e1" := by
  obtain ⟨labels, hsubmitted, hunspent⟩ := submitted_run {} default groverRequest "e1" 0
  have hdelivered : Run (Step {} default) {} _ _ := hsubmitted.step
    (.broker _ _ _ (by simp) (.deliver _ ⟨{ body := _ }, false, 0⟩ 0 0 rfl))
  have hentered : Run (Step {} default) {} _ _ := hdelivered.step
    (.broker _ _ _ (by simp) (.perform _ _ _ .handleMessage _ () 0 rfl))
  have hcrashed : Run (Step {} default) {} _ _ := hentered.step
    (.broker _ _ _ (by simp) (.crash _ _ 0 rfl))
  have hagain : Run (Step {} default) {} _ _ := hcrashed.step
    (.broker _ _ _ (by simp) (.deliver _ ⟨{ body := _ }, true, 0⟩ 0 0 rfl))
  have hslept : Run (Step {} default) {} _ _ := hagain.step
    (.broker _ _ _ (by simp) (.perform _ _ _ (.sleep _) _ () 0 rfl))
  have hcopied : Run (Step {} default) {} _ _ := hslept.step
    (.broker _ _ _ (by simp) (.perform _ _ _ (.publish _ _) _ Outcome.returned 0 rfl))
  have hacked : Run (Step {} default) {} _ _ := hcopied.step
    (.broker _ _ _ (by simp) (.perform _ _ _ .ack _ Outcome.returned 0 rfl))
  refine ⟨_, _, hacked, ⟨_, List.mem_append_left _ (List.mem_append_left _
    (List.mem_append_left _ List.mem_concat_self)), rfl⟩, rfl, rfl,
    run_accounted hacked (fun label hlabel => ?_) "e1"⟩
  simp only [List.append_assoc, List.mem_append, List.mem_cons, List.not_mem_nil,
    or_false] at hlabel
  rcases hlabel with hold | rfl | rfl | rfl | rfl | rfl | rfl | rfl
  case inl => exact hunspent label hold
  -- no retry is used up yet
  case inr.inr.inr.inr.inl => exact fun _ hspent => absurd hspent (by decide)
  case inr.inl => exact nofun
  all_goals trivial

-- Four crashes in a row: the task ends as a dead letter and its record stays queued.
theorem run_not_accounted : ¬ ∀ (settings : Settings) (externals : Externals)
    (labels : List Label) (platform : Platform),
    Run (Step settings externals) {} labels platform →
    ∀ experimentId, platform.Accounted experimentId := by
  intro haccounted
  obtain ⟨labels, run, -⟩ := submitted_run {} default groverRequest "e1" 0
  obtain ⟨letter, -, crashes, hcrashes, -⟩ := @Broker.leads_dead {} default
    (submitted groverRequest "e1" 0).broker 0 _ 0 rfl
  have hdead := run.append (lift_run hcrashes (le_refl _) (submitted groverRequest "e1" 0) rfl)
  rcases haccounted _ _ _ _ hdead "e1" _ rfl rfl with ⟨copy, -, hplace, -⟩ | ⟨_, hmem, -⟩ |
    ⟨call, hmem, -⟩
  · rcases hplace with hmem | hmem | ⟨delivery, hmem, -⟩
    · exact absurd hmem (Multiset.notMem_zero _)
    · exact absurd hmem (Multiset.notMem_zero _)
    · exact absurd hmem (Multiset.notMem_zero _)
  · exact absurd hmem (List.not_mem_nil)
  · exact absurd hmem (Multiset.notMem_zero _)

end example_run

end Platform

end QuantumPlatform
