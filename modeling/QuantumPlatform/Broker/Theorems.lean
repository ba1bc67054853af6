import QuantumPlatform.Broker
import QuantumPlatform.Orchestrator.Delivery.Theorems

namespace QuantumPlatform

open Process Python Orchestrator

variable {settings : Settings} {externals : Externals}

namespace Delivery

variable {delivery : Delivery}

theorem Sound.start (settings : Settings) (externals : Externals) (copy : Copy) (fuel : Nat) :
    Sound settings ⟨copy, {}, (consume ⟨settings, externals, fuel⟩ copy.incoming).run⟩ where
  obeys := consume_obeys ⟨settings, externals, fuel⟩ copy.incoming
  fresh h := by cases h
  handed h := by cases h
  retried h := by cases h

section perform

variable {copy : Copy} {progress : Progress} {op : Effect}
  {next : op.Ans → Program sig (Except Exc Unit)}
  (hsound : Sound settings ⟨copy, progress, .call op next⟩)

include hsound

theorem Sound.allowed : progress.Allowed settings copy.incoming op := hsound.obeys.1

theorem Sound.step (answer : op.Ans) :
    Sound settings ⟨copy, progress.after op answer, next answer⟩ := by
  have hallowed := hsound.allowed
  obtain ⟨hobeys, hfresh, hhanded, hretried⟩ := hsound
  refine ⟨hobeys.2 answer trivial, ?_, ?_, ?_⟩
  · intro hentered
    cases op with
    | handleMessage => exact hallowed.1
    | _ => exact hfresh hentered
  · intro hacked
    cases op with
    | publish queue message =>
        have hold := hhanded hacked
        simp only [Progress.after] at hold ⊢
        simp [hold]
    | ack => exact hallowed.1
    | _ => exact hhanded hacked
  · intro hcopied
    cases op with
    | publish queue message =>
        simp only [Progress.after, Bool.or_eq_true, Bool.and_eq_true] at hcopied ⊢
        rcases hcopied with hold | ⟨hstored, hqueue⟩
        · exact .inl (hretried hold)
        · refine .inr ⟨hstored, ?_⟩
          rw [of_decide_eq_true hqueue]
          rfl
    | _ => exact hretried hcopied

-- A redelivered message is not processed: it is retried or dead-lettered.
theorem Sound.redelivered (hredelivered : copy.redelivered = true) : progress.entered = false := by
  by_contra hentered
  have hfresh := hsound.fresh (by simpa using hentered)
  rw [hredelivered] at hfresh
  cases hfresh

end perform

-- An acknowledged delivery has handed its task over.
theorem Sound.unacked (hsound : delivery.Sound settings)
    (hhanded : delivery.progress.handed = false) : delivery.progress.acked = false := by
  by_contra hacked
  have htaken := hsound.handed (by simpa using hacked)
  rw [hhanded] at htaken
  cases htaken

theorem Sound.finished {copy : Copy} {progress : Progress}
    (hsound : Sound settings ⟨copy, progress, .ret (.ok ())⟩) : progress.acked = true :=
  hsound.obeys rfl

end Delivery

namespace Broker

def Sound (settings : Settings) (broker : Broker) : Prop :=
  ∀ delivery ∈ broker.inFlight, delivery.Sound settings

theorem Sound.delivery {broker : Broker} {delivery : Delivery} {others : Multiset Delivery}
    (hsound : broker.Sound settings) (running : broker.inFlight = delivery ::ₘ others) :
    delivery.Sound settings :=
  hsound delivery (head_mem running)

-- A call of a worker changes the queues only if it is a stored publish.
theorem after_eq (broker : Broker) (origin : Nat) (op : Effect) (answer : op.Ans) :
    broker.after origin op answer = broker ∨ ∃ queue message, op = .publish queue message ∧
      broker.after origin op answer = broker.store origin queue message := by
  cases op with
  | publish queue message =>
      simp only [after]
      split_ifs
      · exact .inr ⟨queue, message, rfl, rfl⟩
      · exact .inl rfl
  | _ => exact .inl rfl

theorem store_task (broker : Broker) (origin : Nat) (message : Message) :
    broker.store origin TASK_QUEUE_NAME message =
      { broker with taskQueue := ⟨message, false, origin⟩ ::ₘ broker.taskQueue } := rfl

theorem store_wait (broker : Broker) (origin : Nat) (message : Message) :
    broker.store origin WAIT_QUEUE_NAME message =
      { broker with waitQueue := ⟨message, false, origin⟩ ::ₘ broker.waitQueue } := rfl

theorem store_inFlight (broker : Broker) (origin : Nat) (queue : String) (message : Message) :
    (broker.store origin queue message).inFlight = broker.inFlight := by
  unfold store
  split_ifs <;> rfl

theorem after_inFlight (broker : Broker) (origin : Nat) (op : Effect) (answer : op.Ans) :
    (broker.after origin op answer).inFlight = broker.inFlight := by
  rcases broker.after_eq origin op answer with hsame | ⟨queue, message, rfl, hstore⟩
  · rw [hsame]
  · rw [hstore]
    exact store_inFlight broker origin queue message

theorem after_published (broker : Broker) (origin : Nat) (op : Effect) (answer : op.Ans) :
    (broker.after origin op answer).published = broker.published := by
  rcases broker.after_eq origin op answer with hsame | ⟨queue, message, rfl, hstore⟩
  · rw [hsame]
  · rw [hstore]
    unfold store
    split_ifs <;> rfl

theorem requeue_inFlight (broker : Broker) (delivery : Delivery) :
    (broker.requeue delivery).inFlight = broker.inFlight := by
  unfold requeue
  split_ifs <;> rfl

variable {broker later : Broker} {label : Label} {labels : List Label}

theorem Step.sound (last : Step settings externals broker label later)
    (hsound : broker.Sound settings) : later.Sound settings := by
  cases last with
  | publish body => exact hsound
  | deliver copy others fuel queued =>
      intro delivery hmem
      rcases Multiset.mem_cons.mp hmem with rfl | hold
      · exact .start settings externals copy fuel
      · exact hsound delivery hold
  | perform copy progress op next answer others running =>
      intro delivery hmem
      rcases Multiset.mem_cons.mp hmem with rfl | hold
      · exact (hsound.delivery running).step answer
      · exact hsound delivery (others_mem running hold)
  | finish copy progress others running =>
      intro delivery hmem
      exact hsound delivery (others_mem running hmem)
  | crash delivery others running =>
      intro other hmem
      rw [requeue_inFlight] at hmem
      exact hsound other (others_mem running hmem)
  | expire copy others waiting => exact hsound

theorem has_store {origin : Nat} {queue : String} {message : Message} {copy : Copy}
    (hhas : (broker.store origin queue message).Has copy) :
    broker.Has copy ∨ queue ≠ RESULTS_QUEUE_NAME ∧ copy = ⟨message, false, origin⟩ := by
  unfold store at hhas
  split_ifs at hhas with htask hwait hdead hresults
  · rcases hhas with hmem | hrest
    · rcases Multiset.mem_cons.mp hmem with hnew | hold
      · exact .inr ⟨by rw [htask]; decide, hnew⟩
      · exact .inl (.inl hold)
    · exact .inl (.inr hrest)
  · rcases hhas with hmem | hmem | hrest
    · exact .inl (.inl hmem)
    · rcases Multiset.mem_cons.mp hmem with hnew | hold
      · exact .inr ⟨by rw [hwait]; decide, hnew⟩
      · exact .inl (.inr (.inl hold))
    · exact .inl (.inr (.inr hrest))
  · rcases hhas with hmem | hmem | hmem | hrest
    · exact .inl (.inl hmem)
    · exact .inl (.inr (.inl hmem))
    · rcases Multiset.mem_cons.mp hmem with hnew | hold
      · exact .inr ⟨by rw [hdead]; decide, hnew⟩
      · exact .inl (.inr (.inr (.inl hold)))
    · exact .inl (.inr (.inr (.inr hrest)))
  · exact .inl hhas
  · exact .inl hhas

-- What a delivery puts into a queue of tasks is a copy of what it was given.
theorem derives_of_publishes {copy : Copy} {progress : Progress} {queue : String}
    {message : Message} (hpublishes : Publishes settings copy.incoming progress queue message)
    (hqueue : queue ≠ RESULTS_QUEUE_NAME) :
    copy.Derives settings ⟨message, false, copy.origin⟩ := by
  cases hpublishes with
  | retry redelivered below slept => exact .retried below
  | wait entered task parsed below => exact .rescheduled below
  | exhausted redelivered spent => exact .rejected
  | malformed entered exc unparsed => exact .rejected
  | result entered task parsed resultMessage named known => exact absurd rfl hqueue

theorem has_after {copy derived : Copy} {progress : Progress} {op : Effect} {answer : op.Ans}
    (hallowed : progress.Allowed settings copy.incoming op)
    (hhas : (broker.after copy.origin op answer).Has derived) :
    broker.Has derived ∨ copy.Derives settings derived := by
  rcases broker.after_eq copy.origin op answer with hsame | ⟨queue, message, rfl, hstore⟩
  · rw [hsame] at hhas
    exact .inl hhas
  · rw [hstore] at hhas
    rcases has_store hhas with hold | ⟨hqueue, rfl⟩
    · exact .inl hold
    · exact .inr (derives_of_publishes hallowed.2.2 hqueue)

section inFlight

variable {copy : Copy} {delivery : Delivery} {others : Multiset Delivery}

theorem Has.split (hhas : broker.Has copy) (hflight : broker.inFlight = delivery ::ₘ others) :
    copy = delivery.copy ∨ Has { broker with inFlight := others } copy := by
  rcases hhas with hmem | hmem | hmem | ⟨other, hmem, hcopy⟩
  · exact .inr (.inl hmem)
  · exact .inr (.inr (.inl hmem))
  · exact .inr (.inr (.inr (.inl hmem)))
  · rw [hflight] at hmem
    rcases Multiset.mem_cons.mp hmem with rfl | hold
    · exact .inl hcopy.symm
    · exact .inr (.inr (.inr (.inr ⟨other, hold, hcopy⟩)))

theorem Has.join (hhas : Has { broker with inFlight := others } copy)
    (hflight : broker.inFlight = delivery ::ₘ others) : broker.Has copy := by
  rcases hhas with hmem | hmem | hmem | ⟨other, hmem, hcopy⟩
  · exact .inl hmem
  · exact .inr (.inl hmem)
  · exact .inr (.inr (.inl hmem))
  · refine .inr (.inr (.inr ⟨other, ?_, hcopy⟩))
    exact others_mem hflight hmem

theorem has_inFlight (hflight : broker.inFlight = delivery ::ₘ others) :
    broker.Has delivery.copy := by
  refine .inr (.inr (.inr ⟨delivery, ?_, rfl⟩))
  exact head_mem hflight

end inFlight

-- A copy that is new after a step was published by the API or comes from a copy
-- that was there before.
theorem Step.has (last : Step settings externals broker label later)
    (hsound : broker.Sound settings) {copy : Copy} (hhas : later.Has copy) :
    broker.Has copy ∨
      (∃ body, label = .publish body ∧ copy = ⟨{ body := body }, false, broker.published.length⟩) ∨
      ∃ parent, broker.Has parent ∧ parent.Derives settings copy := by
  cases last with
  | publish body =>
      rcases hhas with hmem | hrest
      · rcases Multiset.mem_cons.mp hmem with rfl | hold
        · exact .inr (.inl ⟨body, rfl, rfl⟩)
        · exact .inl (.inl hold)
      · exact .inl (.inr hrest)
  | deliver delivered others fuel queued =>
      rcases hhas.split rfl with rfl | hmem | hrest
      · exact .inl (.inl (head_mem queued))
      · exact .inl (.inl (others_mem queued hmem))
      · exact .inl (.inr hrest)
  | perform parent progress op next answer others running =>
      have hparent := has_inFlight running
      rcases hhas.split rfl with rfl | hrest
      · exact .inl hparent
      · have hflight := (after_inFlight broker parent.origin op answer).trans running
        rcases has_after (hsound.delivery running).allowed (Has.join hrest hflight) with hold | hderives
        · exact .inl hold
        · exact .inr (.inr ⟨parent, hparent, hderives⟩)
  | finish finished progress others running => exact .inl (Has.join hhas running)
  | crash delivery others running =>
      unfold requeue at hhas
      split_ifs at hhas with hacked
      · exact .inl (Has.join hhas running)
      · rcases hhas with hmem | hrest
        · rcases Multiset.mem_cons.mp hmem with rfl | hold
          · exact .inr (.inr ⟨delivery.copy, has_inFlight running, .requeued⟩)
          · exact .inl (.inl hold)
        · exact .inl (Has.join (.inr hrest) running)
  | expire expired others waiting =>
      rcases hhas with hmem | hmem | hrest
      · rcases Multiset.mem_cons.mp hmem with rfl | hold
        · have hexpired : broker.Has expired := .inr (.inl (head_mem waiting))
          exact .inr (.inr ⟨expired, hexpired, .expired⟩)
        · exact .inl (.inl hold)
      · exact .inl (.inr (.inl (others_mem waiting hmem)))
      · exact .inl (.inr (.inr hrest))

theorem Step.published (last : Step settings externals broker label later) :
    later.published = broker.published ∨
      ∃ body, label = .publish body ∧ later.published = broker.published ++ [body] := by
  cases last with
  | publish body => exact .inr ⟨body, rfl, rfl⟩
  | deliver copy others fuel queued => exact .inl rfl
  | perform copy progress op next answer others running =>
      exact .inl (after_published broker copy.origin op answer)
  | finish copy progress others running => exact .inl rfl
  | crash delivery others running =>
      unfold requeue
      split_ifs <;> exact .inl rfl
  | expire copy others waiting => exact .inl rfl

theorem sound_empty (settings : Settings) : Broker.Sound settings {} := by
  intro delivery hmem
  exact absurd hmem (Multiset.notMem_zero _)

theorem not_has_empty (copy : Copy) : ¬ Broker.Has {} copy := by
  rintro (hmem | hmem | hmem | ⟨delivery, hmem, -⟩)
  · exact absurd hmem (Multiset.notMem_zero _)
  · exact absurd hmem (Multiset.notMem_zero _)
  · exact absurd hmem (Multiset.notMem_zero _)
  · exact absurd hmem (Multiset.notMem_zero _)

end Broker

end QuantumPlatform
