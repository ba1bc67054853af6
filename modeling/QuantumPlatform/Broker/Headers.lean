import QuantumPlatform.Broker.Theorems
import QuantumPlatform.Broker.Schedules

namespace QuantumPlatform

open Process Python Orchestrator

section counters

variable (message : Message)

@[simp] theorem getRetryCount_retryCopy :
    getRetryCount (retryCopy message) = getRetryCount message + 1 :=
  Dict.get_set_self _ _ _ _

@[simp] theorem waitCount_retryCopy : waitCount (retryCopy message) = waitCount message :=
  Dict.get_set_of_ne _ _ _ _ _ (by decide)

@[simp] theorem waitCount_waitCopy (delay : ℚ) :
    waitCount (waitCopy message delay) = waitCount message + 1 :=
  Dict.get_set_self _ _ _ _

@[simp] theorem getRetryCount_waitCopy (delay : ℚ) :
    getRetryCount (waitCopy message delay) = getRetryCount message :=
  Dict.get_set_of_ne _ _ _ _ _ (by decide)

end counters

variable {settings : Settings} {externals : Externals}

theorem Copy.Derives.origin {copy derived : Copy} (hderives : copy.Derives settings derived) :
    derived.origin = copy.origin := by
  cases hderives <;> rfl

theorem Copy.Derives.body {copy derived : Copy} (hderives : copy.Derives settings derived) :
    derived.message.body = copy.message.body := by
  cases hderives <;> rfl

theorem Copy.Derives.counted {copy derived : Copy} {published : List Body}
    (hderives : copy.Derives settings derived) (hcounted : copy.Counted settings published) :
    derived.Counted settings published := by
  refine ⟨?_, ?_, ?_⟩
  · rw [hderives.origin, hderives.body]
    exact hcounted.body
  · have hretries := hcounted.retries
    cases hderives with
    | retried below =>
        simp only [getRetryCount_retryCopy]
        omega
    | rescheduled below => simpa only [getRetryCount_waitCopy] using hretries
    | requeued => exact hretries
    | expired => exact hretries
    | rejected => exact hretries
  · have hwaits := hcounted.waits
    cases hderives with
    | rescheduled below =>
        simp only [waitCount_waitCopy]
        omega
    | retried below => simpa only [waitCount_retryCopy] using hwaits
    | requeued => exact hwaits
    | expired => exact hwaits
    | rejected => exact hwaits

theorem Copy.Counted.append {copy : Copy} {published : List Body}
    (hcounted : copy.Counted settings published) (bodies : List Body) :
    copy.Counted settings (published ++ bodies) := by
  refine ⟨?_, hcounted.retries, hcounted.waits⟩
  obtain ⟨hlt, -⟩ := List.getElem?_eq_some_iff.mp hcounted.body
  rw [List.getElem?_append_left hlt]
  exact hcounted.body

theorem Copy.counted_published (hmax : 0 ≤ settings.calibrationMaxWaitAttempts)
    (published : List Body) (body : Body) :
    Counted settings (published ++ [body]) ⟨{ body := body }, false, published.length⟩ where
  body := by simp
  retries := ⟨le_refl 0, by rw [MAX_RETRIES]; change (0 : Int) ≤ 3; decide⟩
  waits := ⟨le_refl 0, hmax⟩

namespace Delivery

variable {copy : Copy} {progress : Progress} {op : Effect}
  {next : op.Ans → Program sig (Except Exc Unit)}

theorem Sound.faithful (hsound : Sound settings ⟨copy, progress, .call op next⟩)
    (answer : op.Ans) : (Broker.Label.perform copy progress op answer).Faithful := by
  have hallowed := hsound.allowed
  refine ⟨?_, ?_, ?_⟩
  · rintro message rfl
    have hpublishes := hallowed.2.2
    generalize hqueue : TASK_QUEUE_NAME = queue at hpublishes
    cases hpublishes with
    | retry redelivered below slept =>
        refine ⟨rfl, getRetryCount_retryCopy _, waitCount_retryCopy _, ?_⟩
        rw [slept, getRetryCount_retryCopy]
        rfl
    | wait | exhausted | malformed | result => exact absurd hqueue (by decide)
  · rintro message rfl
    have hpublishes := hallowed.2.2
    generalize hqueue : WAIT_QUEUE_NAME = queue at hpublishes
    cases hpublishes with
    | wait entered task parsed below =>
        exact ⟨rfl, waitCount_waitCopy _ _, getRetryCount_waitCopy _ _⟩
    | retry | exhausted | malformed | result => exact absurd hqueue (by decide)
  · intro hredelivered
    have hfresh := hsound.redelivered hredelivered
    have hentered : ¬ progress.entered = true := by
      rw [hfresh]
      exact Bool.false_ne_true
    refine ⟨hfresh, fun hprocesses => ?_⟩
    cases op with
    | publish queue message =>
        have hpublishes := hallowed.2.2
        cases hpublishes with
        | retry redelivered below slept => exact hprocesses.1 rfl
        | exhausted redelivered spent => exact hprocesses.2 rfl
        | wait entered | malformed entered | result entered => exact hentered entered
    | declareQueue name => exact hprocesses
    | ack => exact hprocesses
    | sleep seconds => exact hprocesses
    | handleMessage =>
        have hdelivered := hallowed.1
        change copy.redelivered = false at hdelivered
        rw [hredelivered] at hdelivered
        cases hdelivered
    | calibrationSave result => exact hallowed
    | triggerClear => exact hallowed
    | triggerWait timeout => exact hallowed
    | _ => exact hentered hallowed

end Delivery

namespace Broker

variable {broker later : Broker} {label : Label} {labels : List Label}

def Counted (settings : Settings) (broker : Broker) : Prop :=
  ∀ copy, broker.Has copy → copy.Counted settings broker.published

theorem Step.counted (last : Step settings externals broker label later)
    (hmax : 0 ≤ settings.calibrationMaxWaitAttempts) (hsound : broker.Sound settings)
    (hcounted : broker.Counted settings) : later.Counted settings := by
  intro copy hhas
  have hkeep : ∀ other : Copy, other.Counted settings broker.published →
      other.Counted settings later.published := by
    intro other hother
    rcases last.published with hsame | ⟨body, -, happend⟩
    · rw [hsame]
      exact hother
    · rw [happend]
      exact hother.append [body]
  rcases last.has hsound hhas with hold | ⟨body, rfl, rfl⟩ | ⟨parent, hparent, hderives⟩
  · exact hkeep copy (hcounted copy hold)
  · cases last
    exact Copy.counted_published hmax broker.published body
  · exact hkeep copy (hderives.counted (hcounted parent hparent))

theorem Step.faithful (last : Step settings externals broker label later)
    (hsound : broker.Sound settings) : label.Faithful := by
  cases last with
  | perform copy progress op next answer others running =>
      exact (hsound.delivery running).faithful answer
  | _ => trivial

-- Headers and bodies of all message copies, along every run.
theorem run_faithful (run : Run (Step settings externals) {} labels broker)
    (hmax : 0 ≤ settings.calibrationMaxWaitAttempts) :
    (∀ copy, broker.Has copy → copy.Counted settings broker.published) ∧
      ∀ label ∈ labels, label.Faithful := by
  have hkeep : ∀ (state : Broker) (label : Label) (next : Broker),
      state.Sound settings ∧ state.Counted settings → True → Step settings externals state label next →
      next.Sound settings ∧ next.Counted settings :=
    fun _ _ _ ⟨hsound, hcounted⟩ _ last =>
      ⟨last.sound hsound, last.counted hmax hsound hcounted⟩
  have hstart : Broker.Sound settings {} ∧ Broker.Counted settings {} :=
    ⟨sound_empty settings, fun copy hhas => absurd hhas (not_has_empty copy)⟩
  refine ⟨(run.invariant hkeep (fun _ _ => trivial) hstart).2, ?_⟩
  exact run.steps hkeep (fun _ _ _ hinv last => last.faithful hinv.1) (fun _ _ => trivial) hstart

-- A published task whose first worker dies: its retry copy is queued.
theorem run_faithful_retried : ∃ labels broker,
    Run (Step {} default) {} labels broker ∧
    broker.taskQueue = {⟨retryCopy { body := .json .null }, false, 0⟩} ∧
    (∀ copy, broker.Has copy → copy.Counted {} broker.published) ∧
    ∀ label ∈ labels, label.Faithful := by
  have hpublished := @leads_published {} default {} 0 (.json .null)
  have hcrashed := hpublished.trans (leads_redelivered { body := .json .null } 0 rfl)
  have hretried := hcrashed.trans (leads_retried { body := .json .null } 0 rfl (by decide))
  obtain ⟨labels, run, -⟩ := hretried
  exact ⟨labels, _, run, rfl, run_faithful run (by decide)⟩

end Broker

end QuantumPlatform
