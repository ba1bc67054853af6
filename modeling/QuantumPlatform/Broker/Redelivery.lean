import QuantumPlatform.Broker.Headers
import QuantumPlatform.Broker.Schedules
import QuantumPlatform.Process.ForkTree
import Mathlib.Algebra.BigOperators.Group.Multiset.Basic

namespace QuantumPlatform

open Process Python Orchestrator

variable (settings : Settings)

-- How many copies of its task a copy may still send to handle_message: each
-- retry copy spends a retry, each wait copy a wait.
section credit

variable (copy : Copy)

def Copy.retriesLeft : Nat := (MAX_RETRIES - getRetryCount copy.message).toNat

def Copy.waitsLeft : Nat :=
  (settings.calibrationMaxWaitAttempts - waitCount copy.message).toNat

def Copy.fresh : Nat := forkTree copy.retriesLeft (copy.waitsLeft settings)

def Copy.again : Nat := forkLeft copy.retriesLeft (copy.waitsLeft settings)

def Copy.waited : Nat := forkRight copy.retriesLeft (copy.waitsLeft settings)

def Copy.credit : Nat := if copy.redelivered then copy.again settings else copy.fresh settings

-- What a delivery at a worker is still worth.
def Copy.outstanding (progress : Progress) : Nat :=
  if progress.acked then 0
  else if copy.redelivered then
    if progress.retried then 0 else copy.again settings
  else if progress.entered then
    (if progress.handed then 0 else copy.waited settings) + copy.again settings
  else copy.fresh settings

end credit

namespace Broker

section origin

variable (origin : Nat)

-- What the queues hold for the task published at `origin`, or what is set
-- aside for it before it is published.
def queued (broker : Broker) : Nat :=
  (broker.taskQueue.map fun copy => share origin copy (copy.credit settings)).sum +
    (broker.waitQueue.map fun copy => share origin copy (copy.fresh settings)).sum +
    if broker.published.length ≤ origin then
      forkTree MAX_RETRIES.toNat settings.calibrationMaxWaitAttempts.toNat
    else 0

def held (deliveries : Multiset Delivery) : Nat :=
  (deliveries.map fun delivery =>
    share origin delivery.copy (delivery.copy.outstanding settings delivery.progress)).sum

def credit (broker : Broker) : Nat :=
  broker.queued settings origin + held settings origin broker.inFlight

end origin

variable {settings} {externals : Externals} {broker later : Broker} {label : Label}
  {labels : List Label} {origin : Nat}

section queued

variable (broker)

theorem queued_task (copy : Copy) (message : Message) :
    (broker.store copy.origin TASK_QUEUE_NAME message).queued settings origin =
      broker.queued settings origin +
        share origin copy (Copy.fresh settings ⟨message, false, copy.origin⟩) := by
  rw [store_task]
  simp only [queued, Multiset.map_cons, Multiset.sum_cons, Copy.credit, share]
  simp only [Bool.false_eq_true, if_false]
  omega

theorem queued_wait (copy : Copy) (message : Message) :
    (broker.store copy.origin WAIT_QUEUE_NAME message).queued settings origin =
      broker.queued settings origin +
        share origin copy (Copy.fresh settings ⟨message, false, copy.origin⟩) := by
  rw [store_wait]
  simp only [queued, Multiset.map_cons, Multiset.sum_cons, share]
  omega

end queued

theorem fresh_eq (copy : Copy) :
    copy.fresh settings = 1 + copy.again settings + copy.waited settings :=
  forkTree_eq _ _

-- A retry copy is worth what its original had for it.
theorem fresh_retryCopy (copy : Copy) (hbelow : getRetryCount copy.message < MAX_RETRIES) :
    Copy.fresh settings ⟨retryCopy copy.message, false, copy.origin⟩ = copy.again settings := by
  have hleft : copy.retriesLeft =
      Copy.retriesLeft ⟨retryCopy copy.message, false, copy.origin⟩ + 1 := by
    simp only [Copy.retriesLeft, getRetryCount_retryCopy]
    omega
  rw [Copy.again, hleft, forkLeft, Copy.fresh, Copy.waitsLeft, Copy.waitsLeft]
  simp only [waitCount_retryCopy]

theorem fresh_waitCopy (copy : Copy)
    (hbelow : waitCount copy.message < settings.calibrationMaxWaitAttempts) :
    Copy.fresh settings ⟨waitCopy copy.message settings.calibrationWaitDelay, false, copy.origin⟩ =
      copy.waited settings := by
  have hleft : copy.waitsLeft settings = Copy.waitsLeft settings
      ⟨waitCopy copy.message settings.calibrationWaitDelay, false, copy.origin⟩ + 1 := by
    simp only [Copy.waitsLeft, waitCount_waitCopy]
    omega
  rw [Copy.waited, hleft, forkRight, Copy.fresh, Copy.retriesLeft, Copy.retriesLeft]
  simp only [getRetryCount_waitCopy]

-- A publish elsewhere leaves what is queued for the task as it is.
theorem queued_store_of_ne (published : Nat) (queue : String) (message : Message)
    (htask : queue ≠ TASK_QUEUE_NAME) (hwait : queue ≠ WAIT_QUEUE_NAME) :
    (broker.store published queue message).queued settings origin =
      broker.queued settings origin := by
  unfold store
  rw [if_neg htask, if_neg hwait]
  split_ifs <;> rfl

theorem share_le {copy : Copy} {first second : Nat} (h : first ≤ second) :
    share origin copy first ≤ share origin copy second := by
  unfold share
  split_ifs
  · exact h
  · exact le_refl 0

theorem share_add (copy : Copy) (first second : Nat) :
    share origin copy (first + second) = share origin copy first + share origin copy second := by
  unfold share
  split_ifs <;> rfl

theorem unretried {delivery : Delivery} (hsound : delivery.Sound settings)
    (hhanded : delivery.progress.handed = false) : delivery.progress.retried = false := by
  by_contra hretried
  have htaken := hsound.retried (by simpa using hretried)
  rw [hhanded] at htaken
  cases htaken

section perform

variable {copy : Copy} {progress : Progress}

-- A delivery that goes on in the same phase is not worth more than before.
theorem outstanding_le {first second : Progress} (hentered : second.entered = first.entered)
    (hhanded : first.handed = true → second.handed = true)
    (hretried : first.retried = true → second.retried = true)
    (hacked : first.acked = true → second.acked = true) :
    copy.outstanding settings second ≤ copy.outstanding settings first := by
  unfold Copy.outstanding
  rw [hentered]
  by_cases hfirst : first.acked = true
  · rw [if_pos (hacked hfirst)]
    omega
  · rw [if_neg hfirst]
    split_ifs <;> first | omega | simp_all

section held

variable (hhanded : progress.handed = false) (hacked : progress.acked = false)

include hacked

theorem outstanding_redelivered (hredelivered : copy.redelivered = true)
    (hretried : progress.retried = false) :
    copy.outstanding settings progress = copy.again settings := by
  simp [Copy.outstanding, hacked, hredelivered, hretried]

-- Handing over gives the wait copy away.
theorem outstanding_handed (hredelivered : copy.redelivered = false)
    (hentered : progress.entered = true) (queue : String) (message : Message)
    (hover : handsOver queue message = true) :
    copy.outstanding settings (progress.after (.publish queue message) .returned) =
      copy.again settings := by
  simp [Copy.outstanding, Progress.after, hacked, hredelivered, hentered, Outcome.stored, hover]

include hhanded

theorem outstanding_entered (hredelivered : copy.redelivered = false)
    (hentered : progress.entered = true) :
    copy.outstanding settings progress = copy.waited settings + copy.again settings := by
  simp [Copy.outstanding, hacked, hredelivered, hentered, hhanded]

-- A stored publish pays for the copy it makes out of what the delivery held.
theorem pays_publish (hretried : progress.retried = false)
    (hfresh : progress.entered = true → copy.redelivered = false) {queue : String}
    {message : Message}
    (hpublishes : Publishes settings copy.incoming progress queue message) :
    (broker.store copy.origin queue message).queued settings origin +
        share origin copy (copy.outstanding settings
          (progress.after (.publish queue message) .returned)) ≤
      broker.queued settings origin +
        share origin copy (copy.outstanding settings progress) := by
  have hkept : queue ≠ TASK_QUEUE_NAME → queue ≠ WAIT_QUEUE_NAME →
      (broker.store copy.origin queue message).queued settings origin +
        share origin copy (copy.outstanding settings
          (progress.after (.publish queue message) .returned)) ≤
      broker.queued settings origin +
        share origin copy (copy.outstanding settings progress) := by
    intro htask hwait
    rw [queued_store_of_ne copy.origin queue message htask hwait]
    apply Nat.add_le_add_left
    apply share_le
    refine outstanding_le rfl ?_ ?_ fun h => h
    · intro h
      rw [hhanded] at h
      cases h
    · intro h
      rw [hretried] at h
      cases h
  cases hpublishes with
  | retry redelivered below slept =>
      have hafter : copy.outstanding settings
          (progress.after (.publish TASK_QUEUE_NAME (retryCopy copy.message)) .returned) = 0 := by
        have hcopied : copy.redelivered = true := redelivered
        simp [Copy.outstanding, Progress.after, hacked, hcopied, Outcome.stored]
      rw [outstanding_redelivered hacked redelivered hretried, queued_task]
      change _ + share origin copy (Copy.fresh settings ⟨retryCopy copy.message, _, _⟩) +
        share origin copy (copy.outstanding settings (progress.after
          (.publish TASK_QUEUE_NAME (retryCopy copy.message)) .returned)) ≤ _
      rw [hafter, fresh_retryCopy copy below, Nat.add_assoc, ← share_add, Nat.add_zero]
  | wait entered task parsed below =>
      rw [outstanding_entered hhanded hacked (hfresh entered) entered,
        outstanding_handed hacked (hfresh entered) entered _ _ rfl, queued_wait]
      change _ + share origin copy (Copy.fresh settings ⟨waitCopy copy.message _, _, _⟩) + _ ≤ _
      rw [fresh_waitCopy copy below, Nat.add_assoc, ← share_add]
  | exhausted redelivered spent => exact hkept (by decide) (by decide)
  | malformed entered exc unparsed => exact hkept (by decide) (by decide)
  | result entered task parsed resultMessage named known => exact hkept (by decide) (by decide)

end held

theorem pays_perform {op : Effect} {next : op.Ans → Program sig (Except Exc Unit)}
    (hsound : Delivery.Sound settings ⟨copy, progress, .call op next⟩) (answer : op.Ans) :
    (broker.after copy.origin op answer).queued settings origin +
        share origin copy (copy.outstanding settings (progress.after op answer)) +
        entry origin (.perform copy progress op answer) ≤
      broker.queued settings origin +
        share origin copy (copy.outstanding settings progress) := by
  have hallowed := hsound.allowed
  cases op with
  | publish queue message =>
      obtain ⟨hhanded, hacked, hpublishes⟩ := hallowed
      have hretried : progress.retried = false := unretried hsound hhanded
      by_cases hstored : Outcome.stored answer = true
      · have hpaid := @pays_publish settings broker origin copy progress hhanded hacked hretried
          hsound.fresh queue message hpublishes
        have hafter : progress.after (.publish queue message) answer =
            progress.after (.publish queue message) .returned := by
          simp only [Progress.after, hstored]
          rfl
        rw [hafter]
        simp only [after, hstored, if_true]
        exact hpaid
      · have hafter : progress.after (.publish queue message) answer =
            { progress with slept := none } := by
          simp [Progress.after, hstored]
        rw [hafter]
        simp only [after, hstored]
        exact le_refl _
  | handleMessage =>
      obtain ⟨hfresh, hentered, hhanded⟩ := hallowed
      have hcopied : copy.redelivered = false := hfresh
      have hacked : progress.acked = false := hsound.unacked hhanded
      have hbefore : copy.outstanding settings progress = copy.fresh settings := by
        simp [Copy.outstanding, hacked, hcopied, hentered]
      have hafter : copy.outstanding settings (progress.after .handleMessage answer) =
          copy.waited settings + copy.again settings :=
        outstanding_entered hhanded hacked hcopied rfl
      have hsplit : copy.fresh settings =
          copy.waited settings + copy.again settings + 1 := by
        rw [fresh_eq]
        omega
      rw [hbefore, hafter, hsplit, share_add _ _ 1]
      change _ + _ + share origin copy 1 ≤ _
      rw [Nat.add_assoc]
      exact le_refl _
  | ack =>
      change _ + share origin copy (copy.outstanding settings (progress.after .ack answer)) ≤ _
      apply Nat.add_le_add_left
      apply share_le
      refine outstanding_le rfl (fun h => h) (fun h => h) fun h => ?_
      simp only [Progress.after, h, Bool.true_or]
  | _ => exact le_refl _

end perform

theorem held_cons (delivery : Delivery) (others : Multiset Delivery) :
    held settings origin (delivery ::ₘ others) =
      share origin delivery.copy (delivery.copy.outstanding settings delivery.progress) +
        held settings origin others := by
  simp only [held, Multiset.map_cons, Multiset.sum_cons]

-- What is set aside for a task pays for its first copy.
theorem pays_publish_task (body : Body) :
    (broker.publish body).credit settings origin = broker.credit settings origin := by
  have hfresh : Copy.credit settings ⟨{ body := body }, false, broker.published.length⟩ =
      forkTree MAX_RETRIES.toNat settings.calibrationMaxWaitAttempts.toNat := by
    change forkTree (MAX_RETRIES - 0).toNat (settings.calibrationMaxWaitAttempts - 0).toNat = _
    rw [Int.sub_zero, Int.sub_zero]
  simp only [credit, queued, publish, Multiset.map_cons, Multiset.sum_cons, hfresh, share,
    List.length_append, List.length_singleton]
  by_cases hlast : broker.published.length = origin
  · rw [if_pos hlast, if_neg (by omega), if_pos (by omega)]
    omega
  · rw [if_neg hlast]
    by_cases hlater : broker.published.length ≤ origin
    · rw [if_pos hlater, if_pos (by omega)]
      omega
    · rw [if_neg hlater, if_neg (by omega)]
      omega

theorem queued_requeue (delivery : Delivery) (hunacked : ¬ delivery.progress.acked = true) :
    (broker.requeue delivery).queued settings origin =
      broker.queued settings origin + share origin delivery.copy (delivery.copy.again settings) := by
  unfold requeue
  rw [if_neg hunacked]
  simp only [queued, Multiset.map_cons, Multiset.sum_cons]
  change share origin delivery.copy (delivery.copy.again settings) + _ + _ + _ = _
  omega

theorem again_le (copy : Copy) : copy.again settings ≤ copy.fresh settings := by
  rw [fresh_eq]
  omega

-- A crash before the retry copy leaves enough for the redelivery.
theorem pays_crash (delivery : Delivery) (hunacked : ¬ delivery.progress.acked = true)
    (hretried : ¬ delivery.progress.retried = true) :
    delivery.copy.again settings ≤ delivery.copy.outstanding settings delivery.progress := by
  have hagain := @again_le settings delivery.copy
  unfold Copy.outstanding
  rw [if_neg hunacked, if_neg hretried]
  split_ifs <;> omega

theorem Step.pays (last : Step settings externals broker label later)
    (hsound : broker.Sound settings) (hclean : label.Clean) :
    later.credit settings origin + entry origin label ≤ broker.credit settings origin := by
  cases last with
  | publish body =>
      rw [pays_publish_task]
      exact le_refl _
  | deliver copy others fuel queued =>
      have htaken : copy.outstanding settings {} = copy.credit settings := rfl
      simp only [credit, Broker.queued, queued, held_cons, htaken, Multiset.map_cons,
        Multiset.sum_cons, entry]
      omega
  | perform copy progress op next answer others running =>
      have hpaid := @pays_perform settings broker origin copy progress op next
        (hsound.delivery running) answer
      simp only [credit, held_cons, running]
      change (broker.after copy.origin op answer).queued settings origin + (_ + _) + _ ≤ _
      omega
  | finish copy progress others running =>
      simp only [credit, running, held_cons, entry]
      change broker.queued settings origin + _ + 0 ≤ _
      omega
  | crash delivery others running =>
      simp only [credit, requeue_inFlight, running, held_cons, entry]
      by_cases hacked : delivery.progress.acked = true
      · have hsame : Broker.requeue { broker with inFlight := others } delivery =
            { broker with inFlight := others } := by
          unfold requeue
          rw [if_pos hacked]
        rw [hsame]
        change broker.queued settings origin + _ + 0 ≤ _
        omega
      · have hpaid := @pays_crash settings delivery hacked fun hretried => hacked (hclean hretried)
        have hshare := @share_le origin delivery.copy _ _ hpaid
        rw [queued_requeue delivery hacked]
        change broker.queued settings origin + _ + _ + 0 ≤ _
        omega
  | expire copy others waiting =>
      have hsame : Copy.credit settings
          ⟨{ copy.message with expiration := none }, false, copy.origin⟩ = copy.fresh settings := rfl
      simp only [credit, queued, waiting, Multiset.map_cons, Multiset.sum_cons, hsame, entry, share]
      omega

-- The retry and wait limits alone bound how often one task is handled, as long
-- as no worker is lost between a retry copy and the ack of its original.
theorem entries_bounded (run : Run (Step settings externals) {} labels broker)
    (hclean : ∀ label ∈ labels, label.Clean) (origin : Nat) :
    entries origin labels ≤
      (MAX_RETRIES.toNat + settings.calibrationMaxWaitAttempts.toNat + 2).choose
        (MAX_RETRIES.toNat + 1) - 1 := by
  have hpaid := @Run.potential Broker Label (Step settings externals) {} broker labels Label.Clean
    (Broker.Sound settings) (entry origin) (credit settings origin)
    (fun _ _ _ hsound _ last => last.sound hsound) (fun _ _ _ hsound hlabel last =>
      last.pays hsound hlabel) run hclean (sound_empty settings)
  have hstart : Broker.credit settings origin {} =
      forkTree MAX_RETRIES.toNat settings.calibrationMaxWaitAttempts.toNat := by
    simp [credit, queued, held]
  have hsize := forkTree_add_one MAX_RETRIES.toNat settings.calibrationMaxWaitAttempts.toNat
  rw [hstart] at hpaid
  unfold entries
  omega

section example_run

private def groverTask : Body :=
  ExperimentTask.toJson ⟨.str "e1", .str "grover", .obj [("num_qubits", .int 2)]⟩

-- A worker dies inside of handle_message, the next one after it has acknowledged the retry copy
-- that it has sent, and the copy reaches handle_message.
theorem entries_bounded_crashed : ∃ labels broker, Run (Step {} default) {} labels broker ∧
    (∃ delivery, .crash delivery ∈ labels ∧ delivery.progress.retried = true) ∧
    entries 0 labels = 2 ∧ entries 0 labels ≤ (3 + 12 + 2 : Nat).choose (3 + 1) - 1 := by
  have hpublished : Run (Step {} default) {} _ _ := .single (.publish {} groverTask)
  have hdelivered : Run (Step {} default) {} _ _ := hpublished.step
    (.deliver _ ⟨{ body := groverTask }, false, 0⟩ 0 0 rfl)
  have hentered : Run (Step {} default) {} _ _ :=
    hdelivered.step (.perform _ _ _ .handleMessage _ () 0 rfl)
  have hcrashed : Run (Step {} default) {} _ _ := hentered.step (.crash _ _ 0 rfl)
  have hagain : Run (Step {} default) {} _ _ := hcrashed.step
    (.deliver _ ⟨{ body := groverTask }, true, 0⟩ 0 0 rfl)
  have hslept : Run (Step {} default) {} _ _ := hagain.step (.perform _ _ _ (.sleep _) _ () 0 rfl)
  have hcopied : Run (Step {} default) {} _ _ :=
    hslept.step (.perform _ _ _ (.publish _ _) _ Outcome.returned 0 rfl)
  have hacked : Run (Step {} default) {} _ _ :=
    hcopied.step (.perform _ _ _ .ack _ Outcome.returned 0 rfl)
  have hlost : Run (Step {} default) {} _ _ := hacked.step (.crash _ _ 0 rfl)
  have hretried : Run (Step {} default) {} _ _ := hlost.step
    (.deliver _ ⟨retryCopy { body := groverTask }, false, 0⟩ 0 0 rfl)
  have hreached : Run (Step {} default) {} _ _ :=
    hretried.step (.perform _ _ _ .handleMessage _ () 0 rfl)
  refine ⟨_, _, hreached, ⟨_, List.mem_append_left _ (List.mem_append_left _ List.mem_concat_self),
    rfl⟩, rfl, entries_bounded hreached ?_ 0⟩
  intro label hlabel
  simp only [List.append_assoc, List.mem_append, List.mem_cons, List.not_mem_nil,
    or_false] at hlabel
  rcases hlabel with rfl | rfl | rfl | rfl | rfl | rfl | rfl | rfl | rfl | rfl | rfl
  -- the first crash comes before the retry copy, the second one after the ack
  case inr.inr.inr.inl => exact nofun
  case inr.inr.inr.inr.inr.inr.inr.inr.inl => exact fun _ => rfl
  all_goals trivial

-- One published task, one worker that keeps dying between the retry copy and
-- the ack: handle_message is reached as often as one likes.
theorem entries_unbounded : ¬ ∃ bound : Int → Int → Nat,
    ∀ (settings : Settings) (externals : Externals) (labels : List Label) (broker : Broker),
      Run (Step settings externals) {} labels broker →
      ∀ origin, entries origin labels ≤ bound MAX_RETRIES settings.calibrationMaxWaitAttempts := by
  intro hbound
  obtain ⟨bound, hbound⟩ := hbound
  have hpublished : Leads {} default {} 0 0 (Broker.publish {} groverTask) :=
    ⟨_, .single (.publish {} groverTask), rfl⟩
  have hredelivered := hpublished.trans (leads_redelivered { body := groverTask } 0 rfl)
  obtain ⟨later, hrounds⟩ := @leads_rounds {} default
    { Broker.publish {} groverTask with taskQueue := {⟨{ body := groverTask }, true, 0⟩} } 0
    { body := groverTask } 0 rfl (by decide) (bound MAX_RETRIES 12 + 1)
  obtain ⟨labels, run, hentries⟩ := hredelivered.trans hrounds
  have hle := hbound {} default labels later run 0
  change entries 0 labels ≤ bound MAX_RETRIES 12 at hle
  omega

end example_run

end Broker

end QuantumPlatform
