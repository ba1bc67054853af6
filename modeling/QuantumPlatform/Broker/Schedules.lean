import QuantumPlatform.Broker
import QuantumPlatform.Orchestrator.Delivery.Theorems

namespace QuantumPlatform.Broker

open Process Python Orchestrator

variable (settings : Settings) (externals : Externals) (broker : Broker) (origin : Nat)

-- A run between two states of the queues, with the number of times it sends a
-- copy of the task published at `origin` to handle_message.
def Leads (entered : Nat) (later : Broker) : Prop :=
  ∃ labels, Run (Step settings externals) broker labels later ∧ entries origin labels = entered

variable {settings externals broker origin} {entered more : Nat} {later last : Broker}

theorem entries_append (labels rest : List Label) :
    entries origin (labels ++ rest) = entries origin labels + entries origin rest := by
  simp only [entries, List.map_append, List.sum_append]

theorem Leads.trans (first : Leads settings externals broker origin entered later)
    (second : Leads settings externals later origin more last) :
    Leads settings externals broker origin (entered + more) last := by
  obtain ⟨labels, run, hlabels⟩ := first
  obtain ⟨rest, tail, hrest⟩ := second
  exact ⟨labels ++ rest, run.append tail, by rw [entries_append, hlabels, hrest]⟩

theorem leads_published (body : Body) :
    Leads settings externals broker origin 0 (broker.publish body) :=
  ⟨_, .single (.publish broker body), rfl⟩

variable (message : Message) (others : Multiset Copy)

-- The worker dies as soon as it has the message.
theorem leads_redelivered (hqueue : broker.taskQueue = ⟨message, false, origin⟩ ::ₘ others) :
    Leads settings externals broker origin 0
      { broker with taskQueue := ⟨message, true, origin⟩ ::ₘ others } := by
  have hdeliver : Run (Step settings externals) broker _ _ :=
    .single (.deliver broker _ others 0 hqueue)
  have hcrashed : Run (Step settings externals) broker _ _ := hdeliver.step (.crash _ _ _ rfl)
  exact ⟨_, hcrashed, by simp [entries, entry]⟩

-- A worker hands the message to handle_message.
theorem run_entered (hqueue : broker.taskQueue = ⟨message, false, origin⟩ ::ₘ others) :
    ∃ rest, Run (Step settings externals) broker
      [.deliver ⟨message, false, origin⟩, .perform ⟨message, false, origin⟩ {} .handleMessage ()]
      { broker with
        taskQueue := others,
        inFlight := ⟨⟨message, false, origin⟩, { entered := true }, rest⟩ ::ₘ broker.inFlight } := by
  have hdeliver : Run (Step settings externals) broker _ _ :=
    .single (.deliver broker _ others 0 hqueue)
  have hentered : Run (Step settings externals) broker _ _ :=
    hdeliver.step (.perform _ _ _ .handleMessage _ () _ rfl)
  exact ⟨_, hentered⟩

-- It dies inside handle_message.
theorem leads_entered (hqueue : broker.taskQueue = ⟨message, false, origin⟩ ::ₘ others) :
    Leads settings externals broker origin 1
      { broker with taskQueue := ⟨message, true, origin⟩ ::ₘ others } := by
  obtain ⟨rest, hentered⟩ := @run_entered settings externals broker origin message others hqueue
  have hcrashed : Run (Step settings externals) broker _ _ := hentered.step (.crash _ _ _ rfl)
  exact ⟨_, hcrashed, by simp [entries, entry, share]⟩

theorem consume_retry (env : Env) (message : Message) (origin : Nat)
    (hbelow : getRetryCount message < MAX_RETRIES) :
    consume env (Copy.incoming ⟨message, true, origin⟩) =
      scheduleRetry message TASK_QUEUE_NAME >>= fun _ => ack := by
  rw [consume_redelivered env rfl]
  exact if_neg (not_le.mpr hbelow)

theorem consume_exhausted (env : Env) (message : Message) (origin : Nat)
    (hspent : MAX_RETRIES ≤ getRetryCount message) :
    consume env (Copy.incoming ⟨message, true, origin⟩) =
      sendToDeadLetterQueue message >>= fun _ => ack := by
  rw [consume_redelivered env rfl]
  exact if_pos hspent

section retry

variable (hqueue : broker.taskQueue = ⟨message, true, origin⟩ ::ₘ others)
  (hbelow : getRetryCount message < MAX_RETRIES)

include hqueue hbelow

-- It dies between the retry copy and the ack: the message and its copy are both queued.
theorem leads_forked :
    Leads settings externals broker origin 0
      { broker with
        taskQueue := ⟨message, true, origin⟩ ::ₘ ⟨retryCopy message, false, origin⟩ ::ₘ others } := by
  have hdeliver : Run (Step settings externals) broker _ _ :=
    .single (.deliver broker _ others 0 hqueue)
  rw [consume_retry _ message origin hbelow] at hdeliver
  have hslept : Run (Step settings externals) broker _ _ :=
    hdeliver.step (.perform _ _ _ (.sleep _) _ () _ rfl)
  have hcopied : Run (Step settings externals) broker _ _ :=
    hslept.step (.perform _ _ _ (.publish _ _) _ Outcome.returned _ rfl)
  have hcrashed : Run (Step settings externals) broker _ _ := hcopied.step (.crash _ _ _ rfl)
  exact ⟨_, hcrashed, by simp [entries, entry]⟩

-- The whole retry path.
theorem leads_retried :
    Leads settings externals broker origin 0
      { broker with taskQueue := ⟨retryCopy message, false, origin⟩ ::ₘ others } := by
  have hdeliver : Run (Step settings externals) broker _ _ :=
    .single (.deliver broker _ others 0 hqueue)
  rw [consume_retry _ message origin hbelow] at hdeliver
  have hslept : Run (Step settings externals) broker _ _ :=
    hdeliver.step (.perform _ _ _ (.sleep _) _ () _ rfl)
  have hcopied : Run (Step settings externals) broker _ _ :=
    hslept.step (.perform _ _ _ (.publish _ _) _ Outcome.returned _ rfl)
  have hacked : Run (Step settings externals) broker _ _ :=
    hcopied.step (.perform _ _ _ .ack _ Outcome.returned _ rfl)
  have hfinished : Run (Step settings externals) broker _ _ :=
    hacked.step (.finish _ _ _ _ rfl)
  exact ⟨_, hfinished, by simp [entries, entry]⟩

end retry

-- A redelivered message without retries left ends as a dead letter.
theorem leads_exhausted (hqueue : broker.taskQueue = ⟨message, true, origin⟩ ::ₘ others)
    (hspent : MAX_RETRIES ≤ getRetryCount message) :
    Leads settings externals broker origin 0
      { broker with
        taskQueue := others,
        deadLetters := ⟨deadLetterCopy message, false, origin⟩ ::ₘ broker.deadLetters } := by
  have hdeliver : Run (Step settings externals) broker _ _ :=
    .single (.deliver broker _ others 0 hqueue)
  rw [consume_exhausted _ message origin hspent] at hdeliver
  have hdeclared : Run (Step settings externals) broker _ _ :=
    hdeliver.step (.perform _ _ _ (.declareQueue _) _ Outcome.returned _ rfl)
  have hcopied : Run (Step settings externals) broker _ _ :=
    hdeclared.step (.perform _ _ _ (.publish _ _) _ Outcome.returned _ rfl)
  have hacked : Run (Step settings externals) broker _ _ :=
    hcopied.step (.perform _ _ _ .ack _ Outcome.returned _ rfl)
  have hfinished : Run (Step settings externals) broker _ _ :=
    hacked.step (.finish _ _ _ _ rfl)
  exact ⟨_, hfinished, by simp [entries, entry]⟩

-- Crash after crash the message uses up its retries.
theorem leads_dead (hqueue : broker.taskQueue = ⟨message, false, origin⟩ ::ₘ others) :
    ∃ letter : Message, letter.body = message.body ∧
      Leads settings externals broker origin 0
        { broker with
          taskQueue := others,
          deadLetters := ⟨letter, false, origin⟩ ::ₘ broker.deadLetters } := by
  have hcrashed := @leads_redelivered settings externals broker origin message others hqueue
  -- on the number of retries the message has left
  obtain ⟨left, hleft⟩ : ∃ left : Nat, MAX_RETRIES - getRetryCount message ≤ left :=
    ⟨_, Int.self_le_toNat _⟩
  induction left generalizing broker message with
  | zero =>
      have hdead := hcrashed.trans (leads_exhausted message others rfl (by omega))
      exact ⟨deadLetterCopy message, rfl, hdead⟩
  | succ left ih =>
      by_cases hspent : MAX_RETRIES ≤ getRetryCount message
      · have hdead := hcrashed.trans (leads_exhausted message others rfl hspent)
        exact ⟨deadLetterCopy message, rfl, hdead⟩
      · have hretried := hcrashed.trans (leads_retried message others rfl (by omega))
        have hcount : getRetryCount (retryCopy message) = getRetryCount message + 1 :=
          Dict.get_set_self _ _ _ _
        obtain ⟨letter, hbody, hrest⟩ := @ih { broker with
          taskQueue := ⟨retryCopy message, false, origin⟩ ::ₘ others } (retryCopy message) rfl
          (leads_redelivered _ _ rfl) (by omega)
        have hall := hretried.trans hrest
        exact ⟨letter, hbody, hall⟩

-- One round of a message that never gets its ack: a fork, and a crash of the
-- copy inside handle_message.
theorem leads_round (hqueue : broker.taskQueue = ⟨message, true, origin⟩ ::ₘ others)
    (hbelow : getRetryCount message < MAX_RETRIES) :
    Leads settings externals broker origin 1
      { broker with
        taskQueue := ⟨message, true, origin⟩ ::ₘ ⟨retryCopy message, true, origin⟩ ::ₘ others } := by
  have hforked := @leads_forked settings externals broker origin message others hqueue hbelow
  rw [Multiset.cons_swap] at hforked
  have hround := hforked.trans (leads_entered (retryCopy message) _ rfl)
  rw [Multiset.cons_swap (⟨retryCopy message, true, origin⟩ : Copy)] at hround
  exact hround

theorem leads_rounds (hqueue : broker.taskQueue = ⟨message, true, origin⟩ ::ₘ others)
    (hbelow : getRetryCount message < MAX_RETRIES) (rounds : Nat) :
    ∃ later, Leads settings externals broker origin rounds later := by
  induction rounds generalizing broker others with
  | zero => exact ⟨broker, [], .start, rfl⟩
  | succ rounds ih =>
      have hround := @leads_round settings externals broker origin message others hqueue hbelow
      obtain ⟨later, hrest⟩ := @ih { broker with
        taskQueue := ⟨message, true, origin⟩ ::ₘ ⟨retryCopy message, true, origin⟩ ::ₘ others } _ rfl
      have hall := hround.trans hrest
      rw [Nat.add_comm] at hall
      exact ⟨later, hall⟩

end QuantumPlatform.Broker
