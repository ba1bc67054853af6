import QuantumPlatform.Broker.Coverage
import QuantumPlatform.Broker.Redelivery
import QuantumPlatform.Process.Rest

namespace QuantumPlatform

open Process Python Orchestrator

variable (settings : Settings)

-- What a copy of a task may still lead to counts first, then how far the copy has
-- come, then what its worker has left to do.
abbrev Rank := ℕ ×ₗ ℕ ×ₗ Ordinal.{0}

def Rank.of (left stage : ℕ) (height : Ordinal.{0}) : Rank :=
  toLex (left, toLex (stage, height))

def Copy.left (copy : Copy) : ℕ := copy.retriesLeft + copy.waitsLeft settings

def Copy.waitingRank (copy : Copy) : Rank := .of (copy.left settings) 5 0

-- A worker that is lost with a fresh delivery gives it back as a redelivered one.
def Copy.queuedRank (copy : Copy) : Rank :=
  .of (copy.left settings) (if copy.redelivered then 2 else 4) 0

noncomputable def Delivery.rank (delivery : Delivery) : Rank :=
  .of (delivery.copy.left settings) (if delivery.copy.redelivered then 1 else 3)
    delivery.rest.height

-- A result that has not been consumed.
def Rank.unread : Rank := .of 0 0 0

namespace Rank

variable {left left' stage stage' : ℕ} {height height' : Ordinal.{0}}

theorem of_lt_of : of left stage height < of left' stage' height' ↔
    left < left' ∨ left = left' ∧ (stage < stage' ∨ stage = stage' ∧ height < height') := by
  simp only [of, Prod.Lex.toLex_lt_toLex]

theorem of_lt_left (h : left < left') : of left stage height < of left' stage' height' :=
  of_lt_of.mpr (.inl h)

theorem of_lt_stage (h : stage < stage') : of left stage height < of left stage' height' :=
  of_lt_of.mpr (.inr ⟨rfl, .inl h⟩)

theorem of_lt_height (h : height < height') : of left stage height < of left stage height' :=
  of_lt_of.mpr (.inr ⟨rfl, .inr ⟨rfl, h⟩⟩)

theorem unread_lt (h : 0 < stage) : unread < of left stage height := by
  refine of_lt_of.mpr ?_
  rcases Nat.eq_zero_or_pos left with rfl | hpos
  · exact .inr ⟨rfl, .inl h⟩
  · exact .inl hpos

end Rank

section copies

variable {settings} {copy : Copy}

theorem left_retryCopy (hbelow : getRetryCount copy.message < MAX_RETRIES) :
    Copy.left settings ⟨retryCopy copy.message, false, copy.origin⟩ < copy.left settings := by
  simp only [Copy.left, Copy.retriesLeft, Copy.waitsLeft, getRetryCount_retryCopy,
    waitCount_retryCopy]
  omega

theorem left_waitCopy (hbelow : waitCount copy.message < settings.calibrationMaxWaitAttempts) :
    Copy.left settings ⟨waitCopy copy.message settings.calibrationWaitDelay, false, copy.origin⟩ <
      copy.left settings := by
  simp only [Copy.left, Copy.retriesLeft, Copy.waitsLeft, getRetryCount_waitCopy,
    waitCount_waitCopy]
  omega

-- What a worker does brings its delivery further.
theorem rank_perform {progress later : Progress} {op : Effect}
    {next : op.Ans → Program sig (Except Exc Unit)} (answer : op.Ans) :
    Delivery.rank settings ⟨copy, later, next answer⟩ <
      Delivery.rank settings ⟨copy, progress, .call op next⟩ :=
  Rank.of_lt_height (@Program.height_next sig _ op next answer)

end copies

namespace Broker

-- The ranks of everything that is left to be done.
noncomputable def ranks (consumed : ℕ) (broker : Broker) : Multiset Rank :=
  broker.taskQueue.map (Copy.queuedRank settings) +
    broker.waitQueue.map (Copy.waitingRank settings) +
    broker.inFlight.map (Delivery.rank settings) +
    Multiset.replicate (broker.results.length - consumed) Rank.unread

-- A worker is lost with a redelivered message it has not acknowledged.
def Label.Disturbs : Label → Prop
  | .publish _ => True
  | .crash delivery => delivery.copy.redelivered = true ∧ delivery.progress.acked = false
  | _ => False

variable {settings} {externals : Externals} {broker later : Broker} {label : Label} {consumed : ℕ}

section cons

theorem ranks_task (copy : Copy) (others : Multiset Copy) :
    ranks settings consumed { broker with taskQueue := copy ::ₘ others } =
      copy.queuedRank settings ::ₘ ranks settings consumed { broker with taskQueue := others } := by
  simp only [ranks, Multiset.map_cons, Multiset.cons_add]

theorem ranks_wait (copy : Copy) (others : Multiset Copy) :
    ranks settings consumed { broker with waitQueue := copy ::ₘ others } =
      copy.waitingRank settings ::ₘ ranks settings consumed { broker with waitQueue := others } := by
  simp only [ranks, Multiset.map_cons, Multiset.cons_add, Multiset.add_cons]

theorem ranks_held (delivery : Delivery) (others : Multiset Delivery) :
    ranks settings consumed { broker with inFlight := delivery ::ₘ others } =
      delivery.rank settings ::ₘ ranks settings consumed { broker with inFlight := others } := by
  simp only [ranks, Multiset.map_cons, Multiset.cons_add, Multiset.add_cons]

theorem ranks_result (result : Body) (hconsumed : consumed ≤ broker.results.length) :
    ranks settings consumed { broker with results := broker.results ++ [result] } =
      Rank.unread ::ₘ ranks settings consumed broker := by
  have hlength : broker.results.length + 1 - consumed = broker.results.length - consumed + 1 := by
    omega
  simp only [ranks, List.length_append, List.length_singleton, hlength, Multiset.replicate_succ,
    Multiset.add_cons]

end cons

theorem after_held (deliveries : Multiset Delivery) (origin : Nat) (op : Effect) (answer : op.Ans) :
    Broker.after { broker with inFlight := deliveries } origin op answer =
      { broker.after origin op answer with inFlight := deliveries } := by
  cases op with
  | publish queue message =>
      simp only [after, store]
      split_ifs <;> rfl
  | _ => rfl

-- What a call of a worker adds to the queues is smaller than the delivery it is made for.
theorem ranks_after {copy : Copy} {progress : Progress} {op : Effect}
    {next : op.Ans → Program sig (Except Exc Unit)} (answer : op.Ans)
    (hsound : Delivery.Sound settings ⟨copy, progress, .call op next⟩)
    (hconsumed : consumed ≤ broker.results.length) :
    ∃ smaller : Multiset Rank,
      (∀ other ∈ smaller, other < Delivery.rank settings ⟨copy, progress, .call op next⟩) ∧
      ranks settings consumed (broker.after copy.origin op answer) =
        smaller + ranks settings consumed broker := by
  rcases broker.after_eq copy.origin op answer with hsame | ⟨queue, message, rfl, hstore⟩
  · exact ⟨0, by simp, by rw [hsame, zero_add]⟩
  · obtain ⟨-, -, hpublishes⟩ := hsound.allowed
    rw [hstore]
    cases hpublishes with
    | retry redelivered below slept =>
        refine ⟨{Copy.queuedRank settings ⟨retryCopy copy.message, false, copy.origin⟩}, ?_, ?_⟩
        · intro other hmem
          rw [Multiset.mem_singleton.mp hmem]
          exact Rank.of_lt_left (left_retryCopy below)
        · exact ranks_task _ broker.taskQueue
    | wait entered task parsed below =>
        refine ⟨{Copy.waitingRank settings
          ⟨waitCopy copy.message settings.calibrationWaitDelay, false, copy.origin⟩}, ?_, ?_⟩
        · intro other hmem
          rw [Multiset.mem_singleton.mp hmem]
          exact Rank.of_lt_left (left_waitCopy below)
        · exact ranks_wait _ broker.waitQueue
    | exhausted redelivered spent => exact ⟨0, by simp, (zero_add _).symm⟩
    | malformed entered exc unparsed => exact ⟨0, by simp, (zero_add _).symm⟩
    | result entered task parsed resultMessage named known =>
        refine ⟨{Rank.unread}, ?_, ?_⟩
        · intro other hmem
          rw [Multiset.mem_singleton.mp hmem]
          exact Rank.unread_lt (by split_ifs <;> decide)
        · exact ranks_result _ hconsumed

-- Every other step of the queues and the workers leaves less to be done.
theorem Step.lowers (last : Step settings externals broker label later)
    (hsound : broker.Sound settings) (hconsumed : consumed ≤ broker.results.length)
    (hquiet : ¬ label.Disturbs) :
    Relation.CutExpand (· < ·) (ranks settings consumed later) (ranks settings consumed broker) := by
  cases last with
  | publish body => exact absurd trivial hquiet
  | deliver copy others fuel queued =>
      have hbefore : ranks settings consumed broker =
          copy.queuedRank settings ::ₘ
            ranks settings consumed { broker with taskQueue := others } := by
        rw [← ranks_task, ← queued]
      refine cutExpand_of_lower (Rank.of_lt_stage ?_) hbefore
        (@ranks_held settings { broker with taskQueue := others } consumed _ broker.inFlight)
      change (if copy.redelivered then 1 else 3) < (if copy.redelivered then 2 else 4)
      split_ifs <;> decide
  | perform copy progress op next answer others running =>
      have hsmaller := @ranks_after settings { broker with inFlight := others } consumed copy
        progress op next answer (hsound.delivery running) hconsumed
      obtain ⟨smaller, hsmaller, hranks⟩ := hsmaller
      have hbefore : ranks settings consumed broker =
          Delivery.rank settings ⟨copy, progress, .call op next⟩ ::ₘ
            ranks settings consumed { broker with inFlight := others } := by
        rw [← ranks_held, ← running]
      refine @cutExpand_of_eq _ _ _ _ _
        (Delivery.rank settings ⟨copy, progress.after op answer, next answer⟩ ::ₘ smaller) _ ?_
        hbefore ?_
      · intro other hmem
        rcases Multiset.mem_cons.mp hmem with rfl | hadded
        · exact rank_perform answer
        · exact hsmaller other hadded
      · rw [Multiset.cons_add, ← hranks, @after_held broker others copy.origin op answer]
        exact @ranks_held settings (broker.after copy.origin op answer) consumed _ others
  | finish copy progress others running =>
      have hbefore : ranks settings consumed broker =
          Delivery.rank settings ⟨copy, progress, .ret (.ok ())⟩ ::ₘ
            ranks settings consumed { broker with inFlight := others } := by
        rw [← ranks_held, ← running]
      exact cutExpand_of_eq (by simp) hbefore (zero_add _).symm
  | crash delivery others running =>
      have hbefore : ranks settings consumed broker =
          delivery.rank settings ::ₘ
            ranks settings consumed { broker with inFlight := others } := by
        rw [← ranks_held, ← running]
      unfold requeue
      split_ifs with hacked
      · exact cutExpand_of_eq (by simp) hbefore (zero_add _).symm
      · -- what is given back is a redelivered copy of a fresh one
        have hfresh : delivery.copy.redelivered = false := by
          by_contra hredelivered
          exact hquiet ⟨by simpa using hredelivered, by simpa using hacked⟩
        have hlower : Copy.queuedRank settings { delivery.copy with redelivered := true } <
            delivery.rank settings := by
          unfold Copy.queuedRank Delivery.rank
          rw [hfresh]
          exact Rank.of_lt_stage (by simp)
        exact cutExpand_of_lower hlower hbefore
          (@ranks_task settings { broker with inFlight := others } consumed _ broker.taskQueue)
  | expire copy others waiting =>
      have hbefore : ranks settings consumed broker =
          copy.waitingRank settings ::ₘ
            ranks settings consumed { broker with waitQueue := others } := by
        rw [← ranks_wait, ← waiting]
      have hlower : Copy.queuedRank settings
          ⟨{ copy.message with expiration := none }, false, copy.origin⟩ <
            copy.waitingRank settings :=
        Rank.of_lt_stage (by simp)
      exact cutExpand_of_lower hlower hbefore
        (@ranks_task settings { broker with waitQueue := others } consumed _ broker.taskQueue)

end Broker

end QuantumPlatform
