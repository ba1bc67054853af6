import QuantumPlatform.Broker.Outcome
import QuantumPlatform.Broker.Headers

namespace QuantumPlatform

open Process Python Orchestrator

namespace Life

variable {settings : Settings} {body : Body} {life next : Life}

theorem sane_queued (settings : Settings) (body : Body) : Sane settings body (.queued []) where
  notices _ hmem := absurd hmem List.not_mem_nil
  bounded := Nat.zero_le _
  finals _ hmem := absurd hmem List.not_mem_nil
  letters _ hmem := absurd hmem List.not_mem_nil

theorem Step.sane (last : Step settings body life next) (hsane : life.Sane settings body) :
    next.Sane settings body := by
  obtain ⟨hnotices, hbounded, hfinals, hletters⟩ := hsane
  cases last with
  | delivered notices => exact ⟨hnotices, hbounded, hfinals, hletters⟩
  | noticed notices task parsed below =>
      refine ⟨fun notice hmem => ?_, ?_, hfinals, hletters⟩
      · rcases List.mem_append.mp hmem with hold | hnew
        · exact hnotices notice hold
        · exact ⟨task, parsed, List.mem_singleton.mp hnew⟩
      · simp only [Life.notices, List.length_append, List.length_singleton]
        omega
  | rescheduled notices notice => exact ⟨hnotices, hbounded, hfinals, hletters⟩
  | settled notices task parsed final reports terminal =>
      refine ⟨hnotices, hbounded, fun other hmem => ?_, hletters⟩
      rw [List.mem_singleton.mp hmem]
      exact ⟨task, parsed, reports, terminal⟩
  | discarded notices exc unparsed letter same =>
      refine ⟨hnotices, hbounded, hfinals, fun other hmem => ?_⟩
      rw [List.mem_singleton.mp hmem]
      exact ⟨same, exc, unparsed⟩

theorem Reachable.sane (hreachable : life.Reachable settings body) :
    life.Sane settings body := by
  induction hreachable with
  | refl => exact sane_queued settings body
  | tail _ last ih => exact last.sane ih

-- There is one copy to be handled, or one that is, or one end.
theorem live_add_held (life : Life) :
    life.live + life.held + life.finals.length + life.letters.length = 1 := by
  cases life <;> rfl

theorem waits_of_not_held (hheld : life.held = 0) : life.waits = life.notices.length := by
  cases life with
  | noticed notices notice => cases hheld
  | _ => rfl

theorem waits_le (life : Life) : life.waits ≤ life.notices.length := by
  cases life with
  | noticed notices notice =>
      change notices.length ≤ (notices ++ [notice]).length
      rw [List.length_append]
      exact Nat.le_add_right _ _
  | _ => exact le_refl _

end Life

-- Only who has not handed over publishes.
theorem Writes.open {settings : Settings} {message sent : Message} {phase : Script} {queue : String}
    (hwrites : Writes settings message phase queue sent) : phase.taken = false := by
  cases hwrites <;> rfl

namespace Delivery

variable {settings : Settings} {externals : Externals} {delivery : Delivery} {phase : Script}

theorem Follows.start (copy : Copy) (fuel : Nat) (hfresh : copy.redelivered = false) :
    Follows settings externals
      ⟨copy, {}, (consume ⟨settings, externals, fuel⟩ copy.incoming).run⟩ .working where
  fresh := hfresh
  handed := rfl
  trace := ⟨fuel, [], .stop _, trivial, rfl⟩

-- What the rest of the delivery may do, and that it acknowledges its message once.
theorem Follows.obeys (hfollows : delivery.Follows settings externals phase) :
    (script settings delivery.copy.message).Obeys Scripted phase delivery.rest ∧
      ∃ fuel events, (consume ⟨settings, externals, fuel⟩ delivery.copy.incoming).run.Trace events
        delivery.rest ∧ (script settings delivery.copy.message).Allows .working events ∧
        (script settings delivery.copy.message).Admits .working events ∧
        (script settings delivery.copy.message).after .working events = phase := by
  obtain ⟨fuel, events, htrace, hadmits, rfl⟩ := hfollows.trace
  have hscripted := consume_scripted ⟨settings, externals, fuel⟩ delivery.copy.incoming
    hfollows.fresh
  obtain ⟨hallows, hrest⟩ := hscripted.trace htrace hadmits
  exact ⟨hrest, fuel, events, htrace, hallows, hadmits, rfl⟩

theorem Follows.acknowledged (hfollows : delivery.Follows settings externals phase)
    (hcontained : ∀ exc, delivery.rest = .ret (.error exc) → exc.isException = true) :
    ∃ fuel events, delivery.Acknowledged settings externals fuel events := by
  obtain ⟨hobeys, fuel, events, htrace, hallows, hadmits, hphase⟩ := hfollows.obeys
  refine ⟨fuel, events, htrace, fun op next hrest => ?_, fun result hrest => ?_⟩
  · rw [hrest] at hobeys
    refine unacked_of_allows hallows fun hacked => ?_
    rw [← hphase, hacked] at hobeys
    exact not_allowed_acked hobeys.1
  · rw [hrest] at hobeys
    refine ackedOnce_of_allows hallows hadmits (hphase.trans ?_)
    cases result with
    | ok value => exact hobeys
    | error exc =>
        have hescaped : exc.isException = false := hobeys
        rw [hcontained exc hrest] at hescaped
        cases hescaped

section step

variable {copy : Copy} {progress : Progress} {op : Effect}
  {next : op.Ans → Program sig (Except Exc Unit)} {answer : op.Ans}

theorem handed_next (hhanded : progress.handed = phase.taken)
    (hallowed : (script settings copy.message).allowed phase op) (hsucceeds : Succeeds op answer) :
    (progress.after op answer).handed =
      ((script settings copy.message).next phase op answer).taken := by
  cases op with
  | publish queue message =>
      obtain rfl : answer = Outcome.returned := hsucceeds
      have hopen : progress.handed = false := hhanded.trans (Writes.open hallowed)
      change (progress.handed || (true && handsOver queue message)) =
        (if handsOver queue message then Script.handed else .noticed).taken
      rw [hopen]
      cases handsOver queue message <;> rfl
  | ack =>
      change progress.handed = true
      rw [hhanded, show phase = .handed from hallowed]
      rfl
  | _ => exact hhanded

theorem Follows.step (hfollows : Follows settings externals ⟨copy, progress, .call op next⟩ phase)
    (hsucceeds : Succeeds op answer) :
    Follows settings externals ⟨copy, progress.after op answer, next answer⟩
      ((script settings copy.message).next phase op answer) where
  fresh := hfollows.fresh
  handed := handed_next hfollows.handed hfollows.obeys.1.1 hsucceeds
  trace := by
    obtain ⟨fuel, events, htrace, hadmits, hphase⟩ := hfollows.trace
    have hstep : (Program.call op next).Trace [⟨op, answer⟩] (next answer) :=
      @Program.Trace.step sig _ op next answer _ _ (.stop _)
    refine ⟨fuel, events ++ [⟨op, answer⟩], htrace.append hstep, ?_, ?_⟩
    · exact (Monitor.admits_append _ _ _).mpr ⟨hadmits, hsucceeds, trivial⟩
    · rw [Monitor.after_append, hphase]
      rfl

end step

end Delivery

namespace Broker

variable {settings : Settings} {externals : Externals} {origin : Nat} {body : Body} {life : Life}
  {labels : List Label} {label : Label} {broker later : Broker}

theorem sent_append (queue : String) (labels : List Label) (label : Label) :
    sent origin queue (labels ++ [label]) =
      sent origin queue labels ++ sends origin queue label := by
  unfold sent
  rw [List.flatMap_append, List.flatMap_singleton]

theorem live_eq_zero : broker.live origin = 0 ↔
    ∀ copy, copy ∈ broker.taskQueue ∨ copy ∈ broker.waitQueue → copy.origin ≠ origin := by
  unfold live
  rw [Nat.add_eq_zero_iff, Multiset.countP_eq_zero, Multiset.countP_eq_zero]
  constructor
  · rintro ⟨htask, hwait⟩ copy (hmem | hmem)
    · exact htask copy hmem
    · exact hwait copy hmem
  · exact fun h => ⟨fun copy hmem => h copy (.inl hmem), fun copy hmem => h copy (.inr hmem)⟩

theorem holding_eq_zero : broker.holding origin = 0 ↔
    ∀ delivery ∈ broker.inFlight, delivery.copy.origin = origin →
      delivery.progress.handed = true := by
  unfold holding
  rw [Multiset.countP_eq_zero]
  constructor
  · intro h delivery hmem horigin
    by_contra hhanded
    exact h delivery hmem ⟨horigin, by simpa using hhanded⟩
  · rintro h delivery hmem ⟨horigin, hhanded⟩
    rw [h delivery hmem horigin] at hhanded
    cases hhanded

-- A step that is none of the task's business.
theorem Stage.frame (hstage : Stage settings externals origin body life labels broker)
    (hsends : ∀ queue, sends origin queue label = [])
    (hlive : later.live origin = broker.live origin)
    (hheld : later.holding origin = broker.holding origin)
    (hcopies : ∀ copy, copy ∈ later.taskQueue ∨ copy ∈ later.waitQueue → copy.origin = origin →
      ∃ old, (old ∈ broker.taskQueue ∨ old ∈ broker.waitQueue) ∧ old.origin = origin ∧
        old.message.body = copy.message.body ∧ waitCount old.message = waitCount copy.message)
    (hholders : ∀ delivery ∈ later.inFlight, delivery.copy.origin = origin →
      delivery.progress.handed = false → ∃ old ∈ broker.inFlight, old.copy = delivery.copy ∧
        old.progress.handed = false ∧ ∀ phase, old.Follows settings externals phase →
          delivery.Follows settings externals phase) :
    Stage settings externals origin body life (labels ++ [label]) later := by
  have hsent : ∀ queue, sent origin queue (labels ++ [label]) = sent origin queue labels := by
    intro queue
    rw [sent_append, hsends, List.append_nil]
  refine ⟨hstage.reachable, hlive.trans hstage.live, hheld.trans hstage.held, ?_, ?_, ?_, ?_, ?_⟩
  · rw [hsent]
    exact hstage.results
  · rw [hsent]
    exact hstage.waits
  · rw [hsent]
    exact hstage.letters
  · intro copy hmem horigin
    obtain ⟨old, hold, hsame, hbody, hwaits⟩ := hcopies copy hmem horigin
    obtain ⟨hfirst, notices, hlife, hcount⟩ := hstage.copies old hold hsame
    exact ⟨hbody.symm.trans hfirst, notices, hlife, hwaits.symm.trans hcount⟩
  · intro delivery hmem horigin hhanded
    obtain ⟨old, hold, hcopy, hopen, hfollows⟩ := hholders delivery hmem horigin hhanded
    obtain ⟨hbody, notices, hcount, hphase⟩ := hstage.holders old hold
      (by rw [hcopy]; exact horigin) hopen
    rw [hcopy] at hbody hcount
    refine ⟨hbody, notices, hcount, ?_⟩
    rcases hphase with ⟨hworking, hlife⟩ | ⟨hnoticed, hlife⟩
    · exact .inl ⟨hfollows .working hworking, hlife⟩
    · exact .inr ⟨hfollows .noticed hnoticed, hlife⟩

-- A delivery that is not of the task, or that something has taken over from, is
-- not counted.
theorem holding_cons_of_free {delivery : Delivery} {others : Multiset Delivery}
    (hfree : delivery.copy.origin = origin → delivery.progress.handed = true) :
    holding origin { broker with inFlight := delivery ::ₘ others } =
      holding origin { broker with inFlight := others } := by
  refine Multiset.countP_cons_of_neg _ ?_
  rintro ⟨horigin, hhanded⟩
  rw [hfree horigin] at hhanded
  cases hhanded

theorem holding_cons_of_open {delivery : Delivery} {others : Multiset Delivery}
    (horigin : delivery.copy.origin = origin) (hopen : delivery.progress.handed = false) :
    holding origin { broker with inFlight := delivery ::ₘ others } =
      holding origin { broker with inFlight := others } + 1 :=
  Multiset.countP_cons_of_pos _ ⟨horigin, hopen⟩

theorem Stage.deliver (hstage : Stage settings externals origin body life labels broker)
    {copy : Copy} {others : Multiset Copy} (fuel : Nat)
    (queued : broker.taskQueue = copy ::ₘ others) (hfresh : copy.redelivered = false) :
    ∃ next, Stage settings externals origin body next (labels ++ [.deliver copy])
      { broker with
        taskQueue := others,
        inFlight := ⟨copy, {}, (consume ⟨settings, externals, fuel⟩ copy.incoming).run⟩ ::ₘ
          broker.inFlight } := by
  have hmem : copy ∈ broker.taskQueue := head_mem queued
  have hothers : ∀ other ∈ others, other ∈ broker.taskQueue := fun other hother => by
    exact others_mem queued hother
  by_cases horigin : copy.origin = origin
  · obtain ⟨hbody, notices, rfl, hcount⟩ := hstage.copies copy (.inl hmem) horigin
    have hlive : Broker.live origin { broker with taskQueue := others } = 0 := by
      have hone : broker.live origin = 1 := hstage.live
      unfold Broker.live at hone ⊢
      rw [queued, Multiset.countP_cons, if_pos horigin] at hone
      simp only
      omega
    have hheld : broker.holding origin = 0 := hstage.held
    refine ⟨.working notices, hstage.reachable.tail (.delivered notices), hlive, ?_, ?_, ?_, ?_,
      ?_, ?_⟩
    · exact (holding_cons_of_open horigin rfl).trans (congrArg (· + 1) hheld)
    · rw [sent_append]
      exact (List.append_nil _).trans hstage.results
    · rw [sent_append]
      exact (congrArg List.length (List.append_nil _)).trans hstage.waits
    · rw [sent_append]
      exact (List.append_nil _).trans hstage.letters
    · intro other hother hsame
      exact absurd hsame (live_eq_zero.mp hlive other hother)
    · intro delivery hdelivery hsame hopen
      rcases Multiset.mem_cons.mp hdelivery with rfl | hold
      · exact ⟨hbody, notices, hcount, .inl ⟨.start copy fuel hfresh, rfl⟩⟩
      · rw [holding_eq_zero.mp hheld delivery hold hsame] at hopen
        cases hopen
  · refine ⟨life, hstage.frame (fun _ => rfl) ?_ (holding_cons_of_free fun h => absurd h horigin)
      ?_ ?_⟩
    · unfold Broker.live
      rw [queued, Multiset.countP_cons, if_neg horigin, Nat.add_zero]
    · intro other hother hsame
      refine ⟨other, ?_, hsame, rfl, rfl⟩
      rcases hother with htask | hwait
      · exact .inl (hothers other htask)
      · exact .inr hwait
    · intro delivery hdelivery hsame hopen
      rcases Multiset.mem_cons.mp hdelivery with rfl | hold
      · exact absurd hsame horigin
      · exact ⟨delivery, hold, rfl, hopen, fun _ h => h⟩

theorem Stage.finish (hstage : Stage settings externals origin body life labels broker)
    {copy : Copy} {progress : Progress} {others : Multiset Delivery}
    (running : broker.inFlight = ⟨copy, progress, .ret (.ok ())⟩ ::ₘ others)
    (hhanded : progress.handed = true) :
    Stage settings externals origin body life (labels ++ [.finish copy])
      { broker with inFlight := others } := by
  refine hstage.frame (fun _ => rfl) rfl ?_ (fun other hother hsame => ⟨other, hother, hsame, rfl,
    rfl⟩) ?_
  · have hcons : broker.holding origin =
        Broker.holding origin { broker with inFlight := ⟨copy, progress, .ret (.ok ())⟩ ::ₘ others } := by
      unfold Broker.holding
      rw [running]
    rw [hcons]
    exact (holding_cons_of_free fun _ => hhanded).symm
  · intro delivery hmem _ hopen
    refine ⟨delivery, ?_, rfl, hopen, fun _ h => h⟩
    exact others_mem running hmem

theorem Stage.expire (hstage : Stage settings externals origin body life labels broker)
    {copy : Copy} {others : Multiset Copy} (waiting : broker.waitQueue = copy ::ₘ others) :
    Stage settings externals origin body life (labels ++ [.expire copy])
      { broker with
        waitQueue := others,
        taskQueue := ⟨{ copy.message with expiration := none }, false, copy.origin⟩ ::ₘ
          broker.taskQueue } := by
  refine hstage.frame (fun _ => rfl) ?_ rfl ?_ fun delivery hmem _ hopen =>
    ⟨delivery, hmem, rfl, hopen, fun _ h => h⟩
  · unfold Broker.live
    rw [waiting, Multiset.countP_cons, Multiset.countP_cons]
    simp only
    omega
  · intro other hother hsame
    rcases hother with htask | hwait
    · rcases Multiset.mem_cons.mp htask with rfl | hold
      · refine ⟨copy, .inr ?_, hsame, rfl, rfl⟩
        exact head_mem waiting
      · exact ⟨other, .inl hold, hsame, rfl, rfl⟩
    · refine ⟨other, .inr ?_, hsame, rfl, rfl⟩
      exact others_mem waiting hwait

theorem Stage.publish (hstage : Stage settings externals origin body life labels broker)
    (hold : origin < broker.published.length) (added : Body) :
    Stage settings externals origin body life (labels ++ [.publish added])
      (broker.publish added) := by
  have hne : broker.published.length ≠ origin := (Nat.ne_of_lt hold).symm
  refine hstage.frame (fun _ => rfl) ?_ rfl ?_ fun delivery hmem _ hopen =>
    ⟨delivery, hmem, rfl, hopen, fun _ h => h⟩
  · exact congrArg (· + _) (Multiset.countP_cons_of_neg _ hne)
  · intro copy hmem hsame
    rcases hmem with htask | hwait
    · rcases Multiset.mem_cons.mp htask with rfl | hqueued
      · exact absurd hsame hne
      · exact ⟨copy, .inl hqueued, hsame, rfl, rfl⟩
    · exact ⟨copy, .inr hwait, hsame, rfl, rfl⟩

section perform

variable {copy : Copy} {progress : Progress} {op : Effect}
  {next : op.Ans → Program sig (Except Exc Unit)} {answer : op.Ans} {others : Multiset Delivery}

theorem sends_publish {queue target : String} {message : Message} (horigin : copy.origin = origin) :
    sends origin queue (.perform copy progress (.publish target message) Outcome.returned) =
      if target = queue then [message] else [] := by
  simp only [sends, horigin, true_and, Outcome.stored, and_true]

theorem sends_of_ne (hother : copy.origin ≠ origin) (queue : String) :
    sends origin queue (.perform copy progress op answer) = [] := by
  cases op with
  | publish target message => exact if_neg fun h => hother h.1
  | _ => rfl

theorem sends_of_silent (hsilent : ∀ queue message, op ≠ .publish queue message) (queue : String) :
    sends origin queue (.perform copy progress op answer) = [] := by
  cases op with
  | publish target message => exact absurd rfl (hsilent target message)
  | _ => rfl

theorem after_of_silent (hsilent : ∀ queue message, op ≠ .publish queue message) :
    broker.after copy.origin op answer = broker := by
  rcases broker.after_eq copy.origin op answer with hsame | ⟨queue, message, hop, -⟩
  · exact hsame
  · exact absurd hop (hsilent queue message)

theorem mem_store {place : Nat} {queue : String} {message : Message} {copy : Copy}
    (hmem : copy ∈ (broker.store place queue message).taskQueue ∨
      copy ∈ (broker.store place queue message).waitQueue) :
    (copy ∈ broker.taskQueue ∨ copy ∈ broker.waitQueue) ∨ copy = ⟨message, false, place⟩ := by
  unfold store at hmem
  split_ifs at hmem
  · rcases hmem with htask | hwait
    · exact (Multiset.mem_cons.mp htask).elim .inr fun hold => .inl (.inl hold)
    · exact .inl (.inr hwait)
  · rcases hmem with htask | hwait
    · exact .inl (.inl htask)
    · exact (Multiset.mem_cons.mp hwait).elim .inr fun hold => .inl (.inr hold)
  · exact .inl hmem
  · exact .inl hmem
  · exact .inl hmem

-- What a delivery of another task stores is not a copy of this one.
theorem store_of_ne {other : Nat} (hother : other ≠ origin) (queue : String) (message : Message) :
    (broker.store other queue message).live origin = broker.live origin ∧
      ∀ copy, copy ∈ (broker.store other queue message).taskQueue ∨
        copy ∈ (broker.store other queue message).waitQueue → copy.origin = origin →
        copy ∈ broker.taskQueue ∨ copy ∈ broker.waitQueue := by
  refine ⟨?_, fun copy hmem hsame => ?_⟩
  · unfold store live
    split_ifs
    · rw [Multiset.countP_cons, if_neg hother, Nat.add_zero]
    · rw [Multiset.countP_cons, if_neg hother, Nat.add_zero]
    · rfl
    · rfl
    · rfl
  · rcases mem_store hmem with hold | rfl
    · exact hold
    · exact absurd hsame hother

theorem Stage.perform_other (hstage : Stage settings externals origin body life labels broker)
    (running : broker.inFlight = ⟨copy, progress, .call op next⟩ ::ₘ others)
    (hother : copy.origin ≠ origin) :
    Stage settings externals origin body life (labels ++ [.perform copy progress op answer])
      { broker.after copy.origin op answer with
        inFlight := ⟨copy, progress.after op answer, next answer⟩ ::ₘ others } := by
  have hstored : (broker.after copy.origin op answer).live origin = broker.live origin ∧
      ∀ other, other ∈ (broker.after copy.origin op answer).taskQueue ∨
        other ∈ (broker.after copy.origin op answer).waitQueue → other.origin = origin →
        other ∈ broker.taskQueue ∨ other ∈ broker.waitQueue := by
    rcases broker.after_eq copy.origin op answer with hsame | ⟨queue, message, -, hstore⟩
    · rw [hsame]
      exact ⟨rfl, fun _ hmem _ => hmem⟩
    · rw [hstore]
      exact store_of_ne hother queue message
  refine hstage.frame (sends_of_ne hother) hstored.1 ?_ ?_ ?_
  · unfold Broker.holding
    rw [running, Multiset.countP_cons, Multiset.countP_cons, if_neg fun h => hother h.1,
      if_neg fun h => hother h.1]
  · exact fun other hmem hsame => ⟨other, hstored.2 other hmem hsame, hsame, rfl, rfl⟩
  · intro delivery hmem hsame hopen
    rcases Multiset.mem_cons.mp hmem with rfl | hold
    · exact absurd hsame hother
    · refine ⟨delivery, ?_, rfl, hopen, fun _ h => h⟩
      exact others_mem running hold

-- A call that is no publish leaves the delivery where it was, as far as the
-- task is concerned.
theorem Stage.perform_silent (hstage : Stage settings externals origin body life labels broker)
    (running : broker.inFlight = ⟨copy, progress, .call op next⟩ ::ₘ others)
    (hsilent : ∀ queue message, op ≠ .publish queue message) (hsucceeds : Succeeds op answer) :
    Stage settings externals origin body life (labels ++ [.perform copy progress op answer])
      { broker.after copy.origin op answer with
        inFlight := ⟨copy, progress.after op answer, next answer⟩ ::ₘ others } := by
  have hhanded : (progress.after op answer).handed = progress.handed := by
    cases op with
    | publish queue message => exact absurd rfl (hsilent queue message)
    | _ => rfl
  rw [after_of_silent hsilent]
  refine hstage.frame (sends_of_silent hsilent) rfl ?_
    (fun other hmem hsame => ⟨other, hmem, hsame, rfl, rfl⟩) ?_
  · unfold Broker.holding
    rw [running, Multiset.countP_cons, Multiset.countP_cons, hhanded]
  · intro delivery hmem hsame hopen
    rcases Multiset.mem_cons.mp hmem with rfl | hold
    · have hbefore : progress.handed = false := hhanded.symm.trans hopen
      refine ⟨⟨copy, progress, .call op next⟩, ?_, rfl, hbefore, fun phase hfollows => ?_⟩
      · exact head_mem running
      · have hallowed := hfollows.obeys.1.1
        have hstep := hfollows.step hsucceeds
        cases op with
        | publish queue message => exact absurd rfl (hsilent queue message)
        | ack =>
            -- a message is acknowledged only when something has taken over
            have htaken := hfollows.handed
            rw [show phase = .handed from hallowed] at htaken
            exact absurd (hbefore.symm.trans htaken) (by decide)
        | _ => exact hstep
    · refine ⟨delivery, ?_, rfl, hopen, fun _ h => h⟩
      exact others_mem running hold

section publish

variable {target : String} {message : Message}
  {rest : Outcome → Program sig (Except Exc Unit)} (horigin : copy.origin = origin)
  (running : broker.inFlight = ⟨copy, progress, .call (.publish target message) rest⟩ ::ₘ others)

include horigin running

-- The delivery that has not handed over is the only one that holds the task.
theorem Stage.alone (hstage : Stage settings externals origin body life labels broker)
    (hopen : progress.handed = false) :
    ∀ delivery ∈ others, delivery.copy.origin = origin → delivery.progress.handed = true := by
  have hheld := hstage.held
  have hone := life.live_add_held
  unfold Broker.holding at hheld
  rw [running, Multiset.countP_cons, if_pos ⟨horigin, hopen⟩] at hheld
  have hzero : Broker.holding origin { broker with inFlight := others } = 0 := by
    unfold Broker.holding
    simp only
    omega
  exact holding_eq_zero.mp hzero

-- Whatever takes over, the delivery does not hold the task any longer.
theorem Stage.held_over (hstage : Stage settings externals origin body life labels broker)
    (hopen : progress.handed = false) (hover : handsOver target message = true) (after : Broker) :
    (∀ delivery ∈ (⟨copy, progress.after (.publish target message) Outcome.returned,
        rest .returned⟩ ::ₘ others : Multiset Delivery), delivery.copy.origin = origin →
      delivery.progress.handed = true) ∧
    Broker.holding origin { after with
      inFlight := ⟨copy, progress.after (.publish target message) Outcome.returned,
        rest .returned⟩ ::ₘ others } = 0 := by
  have hall : ∀ delivery ∈ (⟨copy, progress.after (.publish target message) Outcome.returned,
      rest .returned⟩ ::ₘ others : Multiset Delivery), delivery.copy.origin = origin →
      delivery.progress.handed = true := by
    intro delivery hmem hsame
    rcases Multiset.mem_cons.mp hmem with rfl | hold
    · change (progress.handed || (true && handsOver target message)) = true
      rw [hover, Bool.and_true, Bool.or_true]
    · exact hstage.alone horigin running hopen delivery hold hsame
  exact ⟨hall, holding_eq_zero.mpr hall⟩

-- The delivery hands the task over, which moves its life one step.
theorem Stage.handOver {later : Life}
    (hstage : Stage settings externals origin body life labels broker)
    (hopen : progress.handed = false) (hover : handsOver target message = true)
    (hstep : Life.Step settings body life later)
    (hlive : (broker.store copy.origin target message).live origin = later.live)
    (hheld : later.held = 0)
    (hresults : (later.notices ++ later.finals).map (fun resultMessage =>
        ({ body := resultMessage.toJson } : Message)) =
      (life.notices ++ life.finals).map (fun resultMessage => { body := resultMessage.toJson }) ++
        if target = RESULTS_QUEUE_NAME then [message] else [])
    (hwaits : later.waits = life.waits + if target = WAIT_QUEUE_NAME then 1 else 0)
    (hletters : later.letters =
      life.letters ++ if target = DEAD_LETTER_QUEUE_NAME then [message] else [])
    (hcopies : ∀ other, other ∈ (broker.store copy.origin target message).taskQueue ∨
        other ∈ (broker.store copy.origin target message).waitQueue → other.origin = origin →
      other.message.body = body ∧
        ∃ notices, later = .queued notices ∧ waitCount other.message = notices.length) :
    Stage settings externals origin body later
      (labels ++ [.perform copy progress (.publish target message) Outcome.returned])
      { broker.store copy.origin target message with
        inFlight := ⟨copy, progress.after (.publish target message) Outcome.returned,
          rest .returned⟩ ::ₘ others } := by
  obtain ⟨hfree, hnone⟩ := hstage.held_over horigin running hopen hover
    (broker.store copy.origin target message)
  refine ⟨hstage.reachable.tail hstep, hlive, hnone.trans hheld.symm, ?_, ?_, ?_, hcopies, ?_⟩
  · rw [sent_append, sends_publish horigin, hstage.results, hresults]
  · rw [sent_append, sends_publish horigin, List.length_append, hstage.waits, hwaits]
    split_ifs <;> rfl
  · rw [sent_append, sends_publish horigin, hstage.letters, hletters]
  · intro delivery hmem hsame hunhanded
    rw [hfree delivery hmem hsame] at hunhanded
    cases hunhanded

end publish

section exits

variable {message : Message} {rest : Outcome → Program sig (Except Exc Unit)}
  {notices : List ExperimentResultMessage} (horigin : copy.origin = origin)
  (hbody : copy.message.body = body) (hopen : progress.handed = false)

include horigin hbody hopen

theorem Stage.discard
    (hstage : Stage settings externals origin body (.working notices) labels broker)
    (running : broker.inFlight =
      ⟨copy, progress, .call (.publish DEAD_LETTER_QUEUE_NAME (deadLetterCopy copy.message)) rest⟩ ::ₘ
        others)
    {exc : Exc} (hunparsed : ExperimentTask.fromJson copy.message.body = .error exc) :
    Stage settings externals origin body (.dead notices (deadLetterCopy copy.message))
      (labels ++ [.perform copy progress
        (.publish DEAD_LETTER_QUEUE_NAME (deadLetterCopy copy.message)) Outcome.returned])
      { broker.store copy.origin DEAD_LETTER_QUEUE_NAME (deadLetterCopy copy.message) with
        inFlight := ⟨copy, progress.after
          (.publish DEAD_LETTER_QUEUE_NAME (deadLetterCopy copy.message)) Outcome.returned,
          rest .returned⟩ ::ₘ others } := by
  have hstep : Life.Step settings body (.working notices)
      (.dead notices (deadLetterCopy copy.message)) :=
    .discarded notices exc (by rw [← hbody]; exact hunparsed) _ hbody
  refine hstage.handOver horigin running hopen rfl hstep hstage.live rfl ?_ rfl rfl ?_
  · exact (List.append_nil _).symm
  · intro other hmem hsame
    obtain ⟨-, queued, hlife, -⟩ := hstage.copies other hmem hsame
    cases hlife

theorem Stage.settle
    (hstage : Stage settings externals origin body (.working notices) labels broker)
    {final : ExperimentResultMessage}
    (running : broker.inFlight =
      ⟨copy, progress, .call (.publish RESULTS_QUEUE_NAME { body := final.toJson }) rest⟩ ::ₘ others)
    {task : ExperimentTask} (hparsed : ExperimentTask.fromJson copy.message.body = .ok task)
    (hreports : Reports task final) (hterminal : final.terminal = true) :
    Stage settings externals origin body (.settled notices final)
      (labels ++ [.perform copy progress (.publish RESULTS_QUEUE_NAME { body := final.toJson })
        Outcome.returned])
      { broker.store copy.origin RESULTS_QUEUE_NAME { body := final.toJson } with
        inFlight := ⟨copy, progress.after (.publish RESULTS_QUEUE_NAME { body := final.toJson })
          Outcome.returned, rest .returned⟩ ::ₘ others } := by
  have hover : handsOver RESULTS_QUEUE_NAME { body := final.toJson } = true := by
    rw [handsOver, isTerminalResult_toJson, hterminal, Bool.or_true]
  have hstep : Life.Step settings body (.working notices) (.settled notices final) :=
    .settled notices task (by rw [← hbody]; exact hparsed) final hreports hterminal
  refine hstage.handOver horigin running hopen hover hstep hstage.live rfl ?_ rfl rfl ?_
  · change (notices ++ [final]).map _ = (notices ++ []).map _ ++ [_]
    rw [List.append_nil, List.map_append]
    rfl
  · intro other hmem hsame
    obtain ⟨-, queued, hlife, -⟩ := hstage.copies other hmem hsame
    cases hlife

theorem Stage.notice
    (hstage : Stage settings externals origin body (.working notices) labels broker)
    {task : ExperimentTask}
    (running : broker.inFlight =
      ⟨copy, progress, .call (.publish RESULTS_QUEUE_NAME { body := (waitingResult task).toJson })
        rest⟩ ::ₘ others)
    (hfollows : Delivery.Follows settings externals ⟨copy, progress,
      .call (.publish RESULTS_QUEUE_NAME { body := (waitingResult task).toJson }) rest⟩ .working)
    (hparsed : ExperimentTask.fromJson copy.message.body = .ok task)
    (hcount : waitCount copy.message = notices.length)
    (hbelow : waitCount copy.message < settings.calibrationMaxWaitAttempts) :
    Stage settings externals origin body (.noticed notices (waitingResult task))
      (labels ++ [.perform copy progress
        (.publish RESULTS_QUEUE_NAME { body := (waitingResult task).toJson }) Outcome.returned])
      { broker.store copy.origin RESULTS_QUEUE_NAME { body := (waitingResult task).toJson } with
        inFlight := ⟨copy, progress.after
          (.publish RESULTS_QUEUE_NAME { body := (waitingResult task).toJson }) Outcome.returned,
          rest .returned⟩ ::ₘ others } := by
  have hstill : (progress.after
      (.publish RESULTS_QUEUE_NAME { body := (waitingResult task).toJson })
        Outcome.returned).handed = false := by
    change (progress.handed || _) = false
    rw [hopen]
    rfl
  have halone := hstage.alone horigin running hopen
  have hstep : Life.Step settings body (.working notices) (.noticed notices (waitingResult task)) :=
    .noticed notices task (by rw [← hbody]; exact hparsed) (by rw [← hcount]; exact hbelow)
  refine ⟨hstage.reachable.tail hstep, hstage.live, ?_, ?_, ?_, ?_, ?_, ?_⟩
  · have hnone : Broker.holding origin { broker.store copy.origin RESULTS_QUEUE_NAME
        { body := (waitingResult task).toJson } with inFlight := others } = 0 :=
      holding_eq_zero.mpr halone
    exact (holding_cons_of_open horigin hstill).trans (congrArg (· + 1) hnone)
  · rw [sent_append, sends_publish horigin, hstage.results]
    change (notices ++ []).map _ ++ [_] = ((notices ++ [waitingResult task]) ++ []).map _
    rw [List.append_nil, List.append_nil, List.map_append]
    rfl
  · rw [sent_append, sends_publish horigin]
    exact (congrArg List.length (List.append_nil _)).trans hstage.waits
  · rw [sent_append, sends_publish horigin]
    exact (List.append_nil _).trans hstage.letters
  · intro other hmem hsame
    obtain ⟨-, queued, hlife, -⟩ := hstage.copies other hmem hsame
    cases hlife
  · intro delivery hmem hsame hunhanded
    rcases Multiset.mem_cons.mp hmem with rfl | hold
    · exact ⟨hbody, notices, hcount, .inr ⟨hfollows.step rfl, _, rfl⟩⟩
    · rw [halone delivery hold hsame] at hunhanded
      cases hunhanded

theorem Stage.reschedule {notice : ExperimentResultMessage}
    (hstage : Stage settings externals origin body (.noticed notices notice) labels broker)
    (running : broker.inFlight =
      ⟨copy, progress, .call (.publish WAIT_QUEUE_NAME
        (waitCopy copy.message settings.calibrationWaitDelay)) rest⟩ ::ₘ others)
    (hcount : waitCount copy.message = notices.length) :
    Stage settings externals origin body (.queued (notices ++ [notice]))
      (labels ++ [.perform copy progress (.publish WAIT_QUEUE_NAME
        (waitCopy copy.message settings.calibrationWaitDelay)) Outcome.returned])
      { broker.store copy.origin WAIT_QUEUE_NAME
          (waitCopy copy.message settings.calibrationWaitDelay) with
        inFlight := ⟨copy, progress.after (.publish WAIT_QUEUE_NAME
          (waitCopy copy.message settings.calibrationWaitDelay)) Outcome.returned,
          rest .returned⟩ ::ₘ others } := by
  have hnone : broker.live origin = 0 := hstage.live
  have hone : (broker.store copy.origin WAIT_QUEUE_NAME
      (waitCopy copy.message settings.calibrationWaitDelay)).live origin = 1 := by
    rw [store_wait]
    unfold Broker.live at hnone ⊢
    simp only
    rw [Multiset.countP_cons, if_pos horigin]
    omega
  have hqueued : (notices ++ [notice]).length = notices.length + 1 := by
    rw [List.length_append, List.length_singleton]
  refine hstage.handOver horigin running hopen rfl (.rescheduled notices notice) hone rfl ?_
    hqueued rfl ?_
  · exact (List.append_nil _).symm
  · intro other hmem hsame
    rcases mem_store hmem with hold | rfl
    · exact absurd hsame (live_eq_zero.mp hnone other hold)
    · refine ⟨hbody, notices ++ [notice], rfl, ?_⟩
      rw [waitCount_waitCopy, hcount, hqueued]
      rfl

end exits

-- Any call of a delivery moves its task one step through its life, or not at all.
theorem Stage.perform (hstage : Stage settings externals origin body life labels broker)
    (running : broker.inFlight = ⟨copy, progress, .call op next⟩ ::ₘ others)
    (hfollows : ∃ phase, Delivery.Follows settings externals ⟨copy, progress, .call op next⟩ phase)
    (hsucceeds : Succeeds op answer) :
    ∃ later, Stage settings externals origin body later
      (labels ++ [.perform copy progress op answer])
      { broker.after copy.origin op answer with
        inFlight := ⟨copy, progress.after op answer, next answer⟩ ::ₘ others } := by
  by_cases horigin : copy.origin = origin
  · cases op with
    | publish target message =>
        obtain rfl : answer = Outcome.returned := hsucceeds
        have hafter : broker.after copy.origin (.publish target message) Outcome.returned =
            broker.store copy.origin target message := rfl
        rw [hafter]
        have hopen : progress.handed = false := by
          obtain ⟨phase, hphase⟩ := hfollows
          exact hphase.handed.trans (Writes.open hphase.obeys.1.1)
        obtain ⟨hbody, notices, hcount, hlife⟩ := hstage.holders
          ⟨copy, progress, .call (.publish target message) next⟩
          (head_mem running) horigin hopen
        rcases hlife with ⟨hworking, rfl⟩ | ⟨hnoticed, notice, rfl⟩
        · have hallowed : Writes settings copy.message .working target message :=
            hworking.obeys.1.1
          cases hallowed with
          | malformed exc unparsed =>
              exact ⟨_, hstage.discard horigin hbody hopen running unparsed⟩
          | terminal task parsed final reports terminal =>
              exact ⟨_, hstage.settle horigin hbody hopen running parsed reports terminal⟩
          | notice task parsed below =>
              exact ⟨_, hstage.notice horigin hbody hopen running hworking parsed hcount below⟩
        · have hallowed : Writes settings copy.message .noticed target message :=
            hnoticed.obeys.1.1
          cases hallowed with
          | wait => exact ⟨_, hstage.reschedule horigin hbody hopen running hcount⟩
    | _ => exact ⟨life, hstage.perform_silent running nofun hsucceeds⟩
  · exact ⟨life, hstage.perform_other running horigin⟩

end perform

end Broker

end QuantumPlatform
