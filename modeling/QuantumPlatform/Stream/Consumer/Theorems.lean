import QuantumPlatform.Stream.Consumer
import QuantumPlatform.Process.Fallible
import Mathlib.Algebra.Order.Ring.Rat
import Mathlib.Data.List.Infix

namespace QuantumPlatform.Stream.Consumer

open Process Python

@[simp] theorem emissions_append (first second : List (Event sig)) :
    emissions (first ++ second) = emissions first ++ emissions second := List.filterMap_append

@[simp] theorem handed_append (first second : List (Event sig)) :
    handed (first ++ second) = handed first ++ handed second := List.filterMap_append

section message

variable {env : Env}

-- Every backend has its last error rates, if only by default.
def Holds (samples : Samples) (seen : List Message) : Prop :=
  ∀ backend, (samples.get backend ∅).items = window backend seen

theorem Holds.empty : Holds ∅ [] := fun _ => rfl

theorem window_concat (backend : Key) (seen : List Message) (message : Message) :
    window backend (seen ++ [message]) =
      (Keyed.ownOf Message.sample backend seen ++ (message.sample backend).toList).rtake
        DEFAULT_WINDOW_SIZE := by
  rw [window, Keyed.ownOf_concat]

-- A message without an error rate leaves the windows as they are.
theorem Holds.skip {samples : Samples} {seen : List Message} {message : Message}
    (h : Holds samples seen) (hreads : message.reads = .ok none) :
    Holds samples (seen ++ [message]) := by
  intro backend
  have hsample : message.sample backend = none := by simp [Message.sample, hreads]
  rw [window_concat, hsample, h backend]
  simp [window]

theorem addSample_ok {samples : Samples} {seen : List Message} {message : Message}
    {backendName errorRate : Json} {backend : Key} {rate : ℚ} (h : Holds samples seen)
    (hkey : key backendName = .ok backend) (hnumber : number errorRate = .ok rate)
    (hreads : message.reads = .ok (some (backend, rate))) :
    ∃ later, addSample samples backendName errorRate =
        .ok (later, backend, rollingAverage backend (seen ++ [message])) ∧
      Holds later (seen ++ [message]) := by
  have hsample : ∀ other, message.sample other = if backend = other then some rate else none := by
    intro other
    simp [Message.sample, hreads]
  have hwindow : ((samples.get backend ∅).append rate).items = window backend (seen ++ [message]) := by
    rw [window_concat, hsample, if_pos rfl]
    exact Deque.items_append (h backend) rate
  have hne : window backend (seen ++ [message]) ≠ [] := by
    rw [window_concat, hsample, if_pos rfl, ← List.length_pos_iff, List.rtake, List.length_drop]
    simp only [DEFAULT_WINDOW_SIZE, List.length_append, Option.toList_some, List.length_singleton]
    omega
  refine ⟨(samples.touch backend ∅).set backend ((samples.get backend ∅).append rate), ?_, ?_⟩
  · have hlength : (window backend (seen ++ [message])).length ≠ 0 := by simpa using hne
    simp only [addSample, hkey, hnumber, Dict.get_touch, hwindow, ok_bind, if_neg hlength]
    rfl
  · intro other
    rw [Dict.get_touch_set]
    by_cases hother : other = backend
    · subst hother
      rw [if_pos rfl, hwindow]
    · rw [if_neg hother, window_concat, hsample, if_neg (Ne.symm hother), h other]
      simp [window]

end message

section program

variable {env : Env}

theorem insertion_ordinary (env : Env) (table : Hypertable) (columns : List Column) (payload : Json) :
    OnlyExceptions (insertion env table columns payload) := by
  have hsubscript : ∀ name, OnlyExceptions (subscript payload name) := by
    intro name
    unfold subscript
    cases payload with
    | obj fields =>
        simp only
        cases findField fields name with
        | none => exact .error _ rfl
        | some value => exact .ok value
    | _ => exact .error _ rfl
  have htime : ∀ value, OnlyExceptions (fromisoformat env value) := by
    intro value
    cases value with
    | str text =>
        simp only [fromisoformat]
        cases env.fromisoformat text with
        | error exc => exact .error exc.1 exc.2
        | ok time => exact .ok time
    | _ => exact .error _ rfl
  refine ((hsubscript "timestamp").bind htime).bind fun time => ?_
  refine (OnlyExceptions.mapM (fun column => ?_) columns).bind fun arguments => .ok _
  exact (hsubscript column.name).bind fun value => .ok _

-- What is left of the loop body from its statement on.
def afterExecute (samples : Samples) : Outcome → Program sig (Except Exc Samples)
  | .returned => .ret (.ok samples)
  | .raised exc _ => if exc.isException then .ret (.ok samples) else .ret (.error exc)

def attempt (samples : Samples) : Except Exc Insert → Program sig (Except Exc Samples)
  | .error _ => .ret (.ok samples)
  | .ok insert => .call (.execute insert) (afterExecute samples)

-- A payload that has no row is one more thing the `try` keeps in.
theorem run_execute {insert : Except Exc Insert} (hordinary : OnlyExceptions insert)
    (samples : Samples) :
    (do
      Py.exceptException (execute insert) fun _ => pure ()
      return samples : Py sig Samples).run = attempt samples insert := by
  cases insert with
  | error exc =>
      rw [Py.run_bind, Py.run_exceptException]
      have hexc := hordinary exc rfl
      change Program.bind (Program.bind (Program.ret (Except.error exc)) _) _ = _
      simp only [Program.ret_bind, hexc, if_true]
      rfl
  | ok insert =>
      rw [Py.run_bind, Py.run_exceptException]
      refine congrArg (@Program.call sig (Except Exc Samples) (.execute insert))
        (funext fun outcome => ?_)
      cases outcome with
      | returned => rfl
      | raised exc stored =>
          change Program.bind (Program.bind (Program.ret (Except.error exc)) _) _ = _
          simp only [Program.ret_bind, afterExecute]
          by_cases hexc : exc.isException = true
          · simp only [if_pos hexc]
            rfl
          · simp only [if_neg hexc]
            rfl

-- A part that raises, or after which the rest raises, in step with what is read.
theorem raises_bind {α β γ : Type} {first : Except Exc α} {next : α → Except Exc γ}
    {rest : α → Py sig β} {exc : Exc} (h : first >>= next = .error exc)
    (hrest : ∀ value, next value = .error exc → (rest value).run = .ret (.error exc)) :
    (Py.ofExcept first >>= rest).run = .ret (.error exc) := by
  cases first with
  | error other =>
      cases h
      rfl
  | ok value => exact hrest value h

theorem addSample_error {samples : Samples} {backendName errorRate : Json} {exc : Exc}
    (h : (do return some (← key backendName, ← number errorRate)) =
      (.error exc : Except Exc (Option (Key × ℚ)))) :
    addSample samples backendName errorRate = .error exc := by
  unfold addSample
  cases hkey : key backendName with
  | error other =>
      rw [hkey] at h
      cases h
      rfl
  | ok backend =>
      rw [hkey, ok_bind] at h
      cases hnumber : number errorRate with
      | error other =>
          rw [hnumber] at h
          cases h
          rfl
      | ok rate =>
          rw [hnumber] at h
          cases h

-- The loop body, by what it reads of its message.
theorem consumeMessage_error {samples : Samples} {message : Message} {exc : Exc}
    (hreads : message.reads = .error exc) :
    (consumeMessage env samples message).run = .ret (.error exc) := by
  refine raises_bind hreads fun payload hpayload => ?_
  split_ifs at hpayload ⊢ with hmetrics hwindow
  · exact raises_bind hpayload fun _ h => by cases h
  · exact raises_bind hpayload fun _ h => by cases h
  · refine raises_bind hpayload fun backendName hname => ?_
    refine raises_bind hname fun errorRate hrate => ?_
    rw [addSample_error hrate]
    rfl

theorem consumeMessage_skip {samples : Samples} {message : Message}
    (hreads : message.reads = .ok none) :
    (consumeMessage env samples message).run = attempt samples (message.row env) := by
  obtain ⟨payload, hloads, hpayload⟩ := bind_eq_ok.mp hreads
  unfold consumeMessage Message.row
  simp only [hloads, ok_bind, Py.ofExcept_ok, pure_bind]
  split_ifs at hpayload ⊢ with hmetrics hwindow
  · obtain ⟨values, hlogged, -⟩ := bind_eq_ok.mp hpayload
    simp only [hlogged, Py.ofExcept_ok, pure_bind]
    exact run_execute (insertion_ordinary env _ _ _) samples
  · obtain ⟨values, hlogged, -⟩ := bind_eq_ok.mp hpayload
    simp only [hlogged, Py.ofExcept_ok, pure_bind]
    exact run_execute (insertion_ordinary env _ _ _) samples
  · obtain ⟨backendName, -, hname⟩ := bind_eq_ok.mp hpayload
    obtain ⟨errorRate, -, hrate⟩ := bind_eq_ok.mp hname
    obtain ⟨backend, -, hkey⟩ := bind_eq_ok.mp hrate
    obtain ⟨rate, -, hnumber⟩ := bind_eq_ok.mp hkey
    cases hnumber

theorem consumeMessage_sample (env : Env) {samples : Samples} {seen : List Message}
    {message : Message} {backend : Key} {rate : ℚ} (h : Holds samples seen)
    (hreads : message.reads = .ok (some (backend, rate))) :
    ∃ later, Holds later (seen ++ [message]) ∧
      (consumeMessage env samples message).run =
        let average := rollingAverage backend (seen ++ [message])
        if ALERT_THRESHOLD < average then
          .call (.warning backend average) fun _ => attempt later (message.row env)
        else attempt later (message.row env) := by
  obtain ⟨payload, hloads, hpayload⟩ := bind_eq_ok.mp hreads
  split_ifs at hpayload with hmetrics hwindow
  · obtain ⟨values, -, hnone⟩ := bind_eq_ok.mp hpayload
    cases hnone
  · obtain ⟨values, -, hnone⟩ := bind_eq_ok.mp hpayload
    cases hnone
  · obtain ⟨backendName, hname, hpayload⟩ := bind_eq_ok.mp hpayload
    obtain ⟨errorRate, hrate, hpayload⟩ := bind_eq_ok.mp hpayload
    obtain ⟨found, hkey, hpayload⟩ := bind_eq_ok.mp hpayload
    obtain ⟨value, hnumber, hpayload⟩ := bind_eq_ok.mp hpayload
    obtain ⟨rfl, rfl⟩ := Prod.mk.inj (Option.some.inj (Except.ok.inj hpayload))
    obtain ⟨later, hadded, hlater⟩ := addSample_ok h hkey hnumber hreads
    refine ⟨later, hlater, ?_⟩
    unfold consumeMessage Message.row
    simp only [hloads, ok_bind, Py.ofExcept_ok, pure_bind, if_neg hmetrics, if_neg hwindow, hname,
      hrate, hadded]
    have hattempt := run_execute (insertion_ordinary env .calibrationEvents
      calibrationColumns payload) later
    split_ifs with halert
    · exact congrArg (@Program.call sig (Except Exc Samples) (.warning _ _))
        (funext fun _ => hattempt)
    · exact hattempt

end program

section message

variable {env : Env} {samples : Samples} {seen : List Message} {message : Message}
  {events : List (Event sig)} {rest : Program sig (Except Exc Samples)}

-- How the handling of a message leaves the loop: with the windows that hold its error rate,
-- or with an exception that no `try` keeps in.
def Leaves (seen : List Message) (message : Message) (events : List (Event sig)) :
    Except Exc Samples → Prop
  | .ok later => Holds later (seen ++ [message]) ∧ ∃ reading, message.reads = .ok reading
  | .error exc => message.reads = .error exc ∧ events = [] ∨
      (∃ reading, message.reads = .ok reading) ∧ exc.isException = false ∧
        ∃ before insert stored, events = before ++ [⟨.execute insert, .raised exc stored⟩]

theorem attempt_trace {row : Except Exc Insert} (ht : (attempt samples row).Trace events rest) :
    (events = [] ∧ rest = attempt samples row) ∨
      ∃ insert outcome, row = .ok insert ∧ events = [⟨.execute insert, outcome⟩] ∧
        rest = afterExecute samples outcome := by
  cases row with
  | error exc =>
      cases ht
      exact .inl ⟨rfl, rfl⟩
  | ok insert =>
      cases ht with
      | stop => exact .inl ⟨rfl, rfl⟩
      | step _ _ outcome tail =>
          have hstop : ∃ result, afterExecute samples outcome = .ret result := by
            cases outcome with
            | returned => exact ⟨_, rfl⟩
            | raised exc stored =>
                simp only [afterExecute]
                split_ifs <;> exact ⟨_, rfl⟩
          obtain ⟨result, hresult⟩ := hstop
          rw [hresult] at tail
          cases tail
          exact .inr ⟨insert, outcome, rfl, rfl, hresult.symm⟩

-- From the statement on, a message emits its row and nothing else.
theorem attempt_leaves {reading : Option (Key × ℚ)} (hreads : message.reads = .ok reading)
    (hholds : Holds samples (seen ++ [message]))
    (ht : (attempt samples (message.row env)).Trace events rest) :
    handed events = [] ∧ emissions events <+: inserts env message ∧
      ∀ result, rest = .ret result →
        emissions events = inserts env message ∧ Leaves seen message events result := by
  rcases attempt_trace ht with ⟨rfl, rfl⟩ | ⟨insert, outcome, hrow, rfl, rfl⟩
  · refine ⟨rfl, List.nil_prefix, fun result hresult => ?_⟩
    cases hrow : message.row env with
    | error exc =>
        rw [hrow] at hresult
        cases hresult
        exact ⟨by simp [inserts, hrow, emissions], hholds, reading, hreads⟩
    | ok insert =>
        rw [hrow] at hresult
        cases hresult
  · have hemitted : emissions [⟨.execute insert, outcome⟩] = inserts env message := by
      simp [inserts, hrow, emissions, emission]
    refine ⟨rfl, hemitted ▸ List.prefix_refl _, fun result hresult => ⟨hemitted, ?_⟩⟩
    cases outcome with
    | returned =>
        cases hresult
        exact ⟨hholds, reading, hreads⟩
    | raised exc stored =>
        simp only [afterExecute] at hresult
        split_ifs at hresult with hexc
        · cases hresult
          exact ⟨hholds, reading, hreads⟩
        · cases hresult
          refine .inr ⟨⟨reading, hreads⟩, by simpa using hexc, [], insert, stored, rfl⟩

theorem Leaves.after_warning {backend : Key} {average : ℚ} {result : Except Exc Samples}
    (hreads : ∃ reading, message.reads = .ok reading) (h : Leaves seen message events result) :
    Leaves seen message (⟨.warning backend average, ()⟩ :: events) result := by
  cases result with
  | ok later => exact h
  | error exc =>
      rcases h with ⟨herror, -⟩ | ⟨hok, hexc, before, insert, stored, rfl⟩
      · obtain ⟨reading, hreads⟩ := hreads
        rw [hreads] at herror
        cases herror
      · exact .inr ⟨hok, hexc, ⟨.warning backend average, ()⟩ :: before, insert, stored, rfl⟩

-- What one message leads to, as far as its handling has come.
theorem consumeMessage_leaves (hholds : Holds samples seen)
    (ht : (consumeMessage env samples message).run.Trace events rest) :
    handed events = [] ∧ emissions events <+: expectedOf env seen message ∧
      ∀ result, rest = .ret result →
        emissions events = expectedOf env seen message ∧ Leaves seen message events result := by
  cases hreads : message.reads with
  | error exc =>
      rw [consumeMessage_error hreads] at ht
      cases ht
      refine ⟨rfl, List.nil_prefix, fun result hresult => ?_⟩
      cases hresult
      exact ⟨by simp [expectedOf, hreads, emissions], .inl ⟨hreads, rfl⟩⟩
  | ok reading =>
      cases reading with
      | none =>
          rw [consumeMessage_skip hreads] at ht
          simp only [expectedOf, hreads]
          exact attempt_leaves hreads (hholds.skip hreads) ht
      | some sample =>
          obtain ⟨backend, rate⟩ := sample
          obtain ⟨later, hlater, hrun⟩ := consumeMessage_sample env hholds hreads
          rw [hrun] at ht
          simp only [expectedOf, hreads, alerts] at ht ⊢
          split_ifs at ht ⊢ with halert
          · cases ht with
            | stop => exact ⟨rfl, List.nil_prefix, fun result hresult => by cases hresult⟩
            | step _ _ answer tail =>
                obtain ⟨hhanded, hprefix, hend⟩ := attempt_leaves hreads hlater tail
                refine ⟨hhanded, (List.prefix_append_right_inj [Emission.alert _ _]).mpr hprefix, ?_⟩
                intro result hresult
                obtain ⟨hemitted, hleaves⟩ := hend result hresult
                exact ⟨congrArg _ hemitted, hleaves.after_warning ⟨_, hreads⟩⟩
          · exact attempt_leaves hreads hlater ht

def Effect.Inner (op : Effect) : Prop := op ≠ .next

-- The loop body does not ask for another message.
theorem consumeMessage_inner (env : Env) (samples : Samples) (message : Message) :
    (consumeMessage env samples message).run.Only Effect.Inner := by
  have hexcept : ∀ {α : Type} (result : Except Exc α),
      (Py.ofExcept result : Py sig α).run.Only Effect.Inner := by
    intro α result
    cases result with
    | ok value => trivial
    | error exc => trivial
  have hexecute : ∀ insert : Except Exc Insert, (execute insert).run.Only Effect.Inner := by
    refine fun insert => Py.only_bind (hexcept insert) fun insert => ⟨(fun h => by cases h), fun outcome => ?_⟩
    cases outcome with
    | returned => trivial
    | raised exc stored => trivial
  have hattempt : ∀ (insert : Except Exc Insert) (later : Samples),
      (do
        Py.exceptException (execute insert) fun _ => pure ()
        return later : Py sig Samples).run.Only Effect.Inner := fun insert later =>
    Py.only_bind (Py.only_exceptException (hexecute insert) fun _ => trivial) fun _ => trivial
  refine Py.only_bind (hexcept _) fun payload => ?_
  split_ifs with hmetrics hwindow
  · exact Py.only_bind (hexcept _) fun _ => hattempt _ _
  · exact Py.only_bind (hexcept _) fun _ => hattempt _ _
  · refine Py.only_bind (hexcept _) fun backendName => ?_
    refine Py.only_bind (hexcept _) fun errorRate => ?_
    refine Py.only_bind (hexcept _) fun added => ?_
    obtain ⟨later, backend, average⟩ := added
    simp only
    split_ifs with halert
    · exact ⟨(fun h => by cases h), fun _ => hattempt _ _⟩
    · exact hattempt _ _

end message

section loop

variable {env : Env} {samples : Samples} {seen : List Message} {events : List (Event sig)}
  {rest : Program sig (Except Exc Unit)}

-- The last event of the loop, and how the loop ends after it.
inductive EndsAt : Event sig → Except Exc Unit → Prop where
  | exhausted : EndsAt ⟨.next, .ok none⟩ (.ok ())
  | iterator (exc : Exc) : EndsAt ⟨.next, .error exc⟩ (.error exc)
  | unreadable {message : Message} {exc : Exc} (reads : message.reads = .error exc) :
      EndsAt ⟨.next, .ok (some message)⟩ (.error exc)
  | interrupted (insert : Insert) (stored : Bool) {exc : Exc} (severe : exc.isException = false) :
      EndsAt ⟨.execute insert, .raised exc stored⟩ (.error exc)

-- Nothing but its last event ends the loop: all messages before it could be read.
def Ends (events : List (Event sig)) (result : Except Exc Unit) : Prop :=
  ∃ before last, events = before ++ [last] ∧ EndsAt last result ∧
    ∀ message ∈ handed before, ∃ reading, message.reads = .ok reading

theorem Ends.append {first second : List (Event sig)} {result : Except Exc Unit}
    (h : Ends second result)
    (hfirst : ∀ message ∈ handed first, ∃ reading, message.reads = .ok reading) :
    Ends (first ++ second) result := by
  obtain ⟨before, last, rfl, hends, hbefore⟩ := h
  refine ⟨first ++ before, last, (List.append_assoc _ _ _).symm, hends, fun message hmem => ?_⟩
  rw [handed_append, List.mem_append] at hmem
  exact hmem.elim (hfirst message) (hbefore message)

theorem prefix_expected (first : List Emission) {emitted rest : List Emission}
    (h : emitted <+: rest) : first ++ emitted <+: first ++ rest :=
  (List.prefix_append_right_inj first).mpr h

-- The exception that leaves the handling of a message ends the loop.
theorem Leaves.ends {message : Message} {exc : Exc} (hhanded : handed events = [])
    (h : Leaves seen message events (.error exc)) :
    Ends (⟨.next, .ok (some message)⟩ :: events) (.error exc) := by
  rcases h with ⟨hreads, rfl⟩ | ⟨hreads, hsevere, before, insert, stored, rfl⟩
  · exact ⟨[], _, rfl, .unreadable hreads, fun other hmem => by cases hmem⟩
  · refine ⟨⟨.next, .ok (some message)⟩ :: before, _, rfl, .interrupted insert stored hsevere, ?_⟩
    rw [handed_append, List.append_eq_nil_iff] at hhanded
    have hall : handed (⟨.next, .ok (some message)⟩ :: before) = [message] :=
      congrArg (message :: ·) hhanded.1
    intro other hmem
    rw [hall, List.mem_singleton] at hmem
    exact hmem ▸ hreads

-- As far as a run of the loop has come, it has emitted what its messages lead to, but for
-- what the last of them still has to.
structure Emits (env : Env) (seen : List Message) (events : List (Event sig)) : Prop where
  emitted : emissions events <+: expected env seen (handed events)
  settled : expected env seen (handed events).dropLast <+: emissions events

theorem Emits.of_handed_nil (hhanded : handed events = []) (hemitted : emissions events = []) :
    Emits env seen events := by
  refine ⟨?_, ?_⟩
  · rw [hemitted]
    exact List.nil_prefix
  · rw [hhanded]
    exact List.nil_prefix

-- While a message is being handled, its emissions are a part of what it leads to.
theorem Emits.handling {message : Message} (hhanded : handed events = [])
    (hemitted : emissions events <+: expectedOf env seen message) :
    Emits env seen (⟨.next, .ok (some message)⟩ :: events) := by
  have hall : handed (⟨.next, .ok (some message)⟩ :: events) = [message] :=
    congrArg (message :: ·) hhanded
  refine ⟨?_, ?_⟩
  · rw [hall, expected, expected, List.append_nil]
    exact hemitted
  · rw [hall]
    exact List.nil_prefix

section handled

variable {message : Message} {first second : List (Event sig)}

theorem handed_handled (hhanded : handed first = []) :
    handed (⟨.next, .ok (some message)⟩ :: (first ++ second)) = message :: handed second := by
  change message :: handed (first ++ second) = _
  rw [handed_append, hhanded, List.nil_append]

theorem emissions_handled (hemitted : emissions first = expectedOf env seen message) :
    emissions (⟨.next, .ok (some message)⟩ :: (first ++ second)) =
      expectedOf env seen message ++ emissions second := by
  change emissions (first ++ second) = _
  rw [emissions_append, hemitted]

-- After it, the rest of the run goes on from there.
theorem Emits.handled (h : Emits env (seen ++ [message]) second) (hhanded : handed first = [])
    (hemitted : emissions first = expectedOf env seen message) :
    Emits env seen (⟨.next, .ok (some message)⟩ :: (first ++ second)) := by
  refine ⟨?_, ?_⟩
  · rw [handed_handled hhanded, emissions_handled hemitted]
    exact prefix_expected _ h.emitted
  · rw [handed_handled hhanded, emissions_handled hemitted]
    cases hsecond : handed second with
    | nil => exact List.nil_prefix
    | cons next others =>
        have hsettled := h.settled
        rw [hsecond] at hsettled
        rw [List.dropLast_cons_cons]
        exact prefix_expected _ hsettled

-- And so it does when the run has emitted everything.
theorem exact_handled (hhanded : handed first = [])
    (hemitted : emissions first = expectedOf env seen message)
    (h : emissions second = expected env (seen ++ [message]) (handed second)) :
    emissions (⟨.next, .ok (some message)⟩ :: (first ++ second)) =
      expected env seen (handed (⟨.next, .ok (some message)⟩ :: (first ++ second))) := by
  rw [handed_handled hhanded, emissions_handled hemitted, h, expected]

end handled

theorem consumeMessages_emits (fuel : Nat) (hholds : Holds samples seen)
    (ht : (consumeMessages env fuel samples).run.Trace events rest) :
    Emits env seen events ∧
      (∀ next, rest = .call .next next → emissions events = expected env seen (handed events)) ∧
      ∀ result, rest = .ret result →
        emissions events = expected env seen (handed events) ∧ Ends events result := by
  induction fuel generalizing samples seen events with
  | zero =>
      cases ht with
      | stop => exact ⟨.of_handed_nil rfl rfl, fun _ _ => rfl, fun result hresult => by cases hresult⟩
      | step _ _ answer tail => exact answer.elim
  | succ fuel ih =>
      cases ht with
      | stop => exact ⟨.of_handed_nil rfl rfl, fun _ _ => rfl, fun result hresult => by cases hresult⟩
      | @step _ _ answer events' _ tail =>
          cases answer with
          | error exc =>
              cases tail
              refine ⟨.of_handed_nil rfl rfl, fun _ _ => rfl, fun result hresult => ⟨rfl, ?_⟩⟩
              cases hresult
              exact ⟨[], _, rfl, .iterator exc, fun message hmem => by cases hmem⟩
          | ok found =>
              cases found with
              | none =>
                  cases tail
                  refine ⟨.of_handed_nil rfl rfl, fun _ _ => rfl, fun result hresult => ⟨rfl, ?_⟩⟩
                  cases hresult
                  exact ⟨[], _, rfl, .exhausted, fun message hmem => by cases hmem⟩
              | some message =>
                  rcases @Py.trace_of_bind sig Samples Unit (consumeMessage env samples message)
                    (consumeMessages env fuel) _ _ tail with
                    ⟨op, left, next, hleft, rfl⟩ | ⟨exc, hraised, rfl⟩ |
                    ⟨first, later, second, rfl, hfirst, hsecond⟩
                  · obtain ⟨hhanded, hemitted, -⟩ := consumeMessage_leaves hholds hleft
                    refine ⟨.handling hhanded hemitted, fun later hlater => ?_,
                      fun result hresult => by cases hresult⟩
                    exact absurd (Program.call.inj hlater).1
                      ((consumeMessage_inner env samples message).at hleft)
                  · obtain ⟨hhanded, -, hend⟩ := consumeMessage_leaves hholds hraised
                    obtain ⟨hemitted, hleaves⟩ := hend _ rfl
                    have hnone : Emits env (seen ++ [message]) [] := .of_handed_nil rfl rfl
                    have hexact := @exact_handled env seen message events' [] hhanded hemitted rfl
                    have hall := hnone.handled hhanded hemitted
                    rw [List.append_nil] at hexact hall
                    refine ⟨hall, fun _ _ => hexact, fun result hresult => ⟨hexact, ?_⟩⟩
                    cases hresult
                    exact hleaves.ends hhanded
                  · obtain ⟨hhanded, -, hend⟩ := consumeMessage_leaves hholds hfirst
                    obtain ⟨hemitted, hlater, hreads⟩ := hend _ rfl
                    obtain ⟨hrest, hidle, hends⟩ := ih hlater hsecond
                    refine ⟨hrest.handled hhanded hemitted,
                      fun next hnext => exact_handled hhanded hemitted (hidle next hnext),
                      fun result hresult => ?_⟩
                    obtain ⟨hexact, hended⟩ := hends result hresult
                    refine ⟨exact_handled hhanded hemitted hexact, ?_⟩
                    have hone : handed (⟨.next, .ok (some message)⟩ :: first) = [message] :=
                      congrArg (message :: ·) hhanded
                    have hreadable : ∀ other ∈ handed (⟨.next, .ok (some message)⟩ :: first),
                        ∃ reading, other.reads = .ok reading := by
                      intro other hmem
                      rw [hone, List.mem_singleton] at hmem
                      exact hmem ▸ hreads
                    exact hended.append hreadable

end loop

section process

variable {env : Env} {fuel : Nat} {events : List (Event sig)}

-- The two calls of the `finally`: where stopping raises, the pool is not closed.
inductive Cleaned : List (Event sig) → Except Exc Unit → Prop where
  | unstopped (exc : Exc) (stored : Bool) : Cleaned [⟨.stop, .raised exc stored⟩] (.error exc)
  | unclosed (exc : Exc) (stored : Bool) :
      Cleaned [⟨.stop, .returned⟩, ⟨.close, .raised exc stored⟩] (.error exc)
  | closed : Cleaned [⟨.stop, .returned⟩, ⟨.close, .returned⟩] (.ok ())

theorem shutdown_quiet {rest : Program sig (Except Exc Unit)}
    (ht : shutdown.run.Trace events rest) : handed events = [] ∧ emissions events = [] := by
  cases ht with
  | stop => exact ⟨rfl, rfl⟩
  | step _ _ answer tail =>
      cases answer with
      | raised exc stored =>
          cases tail
          exact ⟨rfl, rfl⟩
      | returned =>
          cases tail with
          | stop => exact ⟨rfl, rfl⟩
          | step _ _ answer tail =>
              cases answer with
              | returned =>
                  cases tail
                  exact ⟨rfl, rfl⟩
              | raised exc stored =>
                  cases tail
                  exact ⟨rfl, rfl⟩

theorem shutdown_cleaned {result : Except Exc Unit} (ht : shutdown.run.Returns events result) :
    Cleaned events result := by
  cases ht with
  | step _ _ answer tail =>
      cases answer with
      | raised exc stored =>
          cases tail
          exact .unstopped exc stored
      | returned =>
          cases tail with
          | step _ _ answer tail =>
              cases answer with
              | returned =>
                  cases tail
                  exact .closed
              | raised exc stored =>
                  cases tail
                  exact .unclosed exc stored

theorem Emits.quiet {later : List (Event sig)} (h : Emits env [] events)
    (hhanded : handed later = []) (hemitted : emissions later = []) :
    Emits env [] (events ++ later) := by
  refine ⟨?_, ?_⟩
  · rw [emissions_append, handed_append, hhanded, hemitted, List.append_nil, List.append_nil]
    exact h.emitted
  · rw [emissions_append, handed_append, hhanded, hemitted, List.append_nil, List.append_nil]
    exact h.settled

-- From the `try` on.
theorem protected_emits {rest : Program sig (Except Exc Unit)}
    (ht : (Py.withFinally (consumeMessages env fuel ∅) shutdown).run.Trace events rest) :
    Emits env [] events ∧
      (∀ next, rest = .call .next next → emissions events = expected env [] (handed events)) ∧
      ∀ result, rest = .ret result → emissions events = expected env [] (handed events) := by
  rw [Py.run_withFinally] at ht
  rcases ht.of_bind with ⟨op, left, hleft, rfl⟩ | ⟨first, result, second, rfl, hfirst, hsecond⟩
  · obtain ⟨hemits, hidle, -⟩ := consumeMessages_emits fuel Holds.empty hleft
    refine ⟨hemits, fun next hnext => ?_, fun result hresult => by cases hresult⟩
    obtain ⟨rfl, -⟩ := Program.call.inj hnext
    exact hidle left rfl
  · obtain ⟨hemits, -, hend⟩ := consumeMessages_emits fuel Holds.empty hfirst
    have hquiet : handed second = [] ∧ emissions second = [] := by
      rcases hsecond.of_bind with ⟨op, left, hleft, -⟩ | ⟨before, after, last, rfl, hbefore, hlast⟩
      · exact shutdown_quiet hleft
      · cases hlast
        rw [List.append_nil]
        exact shutdown_quiet hbefore
    have hexact : emissions (first ++ second) = expected env [] (handed (first ++ second)) := by
      rw [emissions_append, handed_append, hquiet.1, hquiet.2, List.append_nil, List.append_nil]
      exact (hend _ rfl).1
    exact ⟨hemits.quiet hquiet.1 hquiet.2, fun _ _ => hexact, fun _ _ => hexact⟩

-- The start can fail before the `try`. A pool that is there by then stays open.
inductive Unstarted : List (Event sig) → Except Exc Unit → Prop where
  | pool (exc : Exc) (stored : Bool) : Unstarted [⟨.createPool, .raised exc stored⟩] (.error exc)
  | consumer (exc : Exc) (stored : Bool) :
      Unstarted [⟨.createPool, .returned⟩, ⟨.start, .raised exc stored⟩] (.error exc)

theorem starts {rest : Program sig (Except Exc Unit)}
    (ht : (consumeCalibrationResults env fuel).run.Trace events rest) :
    (handed events = [] ∧ emissions events = [] ∧
        ∀ result, rest = .ret result → Unstarted events result) ∨
      ∃ later, events = ⟨.createPool, .returned⟩ :: ⟨.start, .returned⟩ :: later ∧
        (Py.withFinally (consumeMessages env fuel ∅) shutdown).run.Trace later rest := by
  cases ht with
  | stop => exact .inl ⟨rfl, rfl, fun result hresult => by cases hresult⟩
  | step _ _ answer tail =>
      cases answer with
      | raised exc stored =>
          cases tail
          refine .inl ⟨rfl, rfl, fun result hresult => ?_⟩
          cases hresult
          exact .pool exc stored
      | returned =>
          cases tail with
          | stop => exact .inl ⟨rfl, rfl, fun result hresult => by cases hresult⟩
          | step _ _ answer tail =>
              cases answer with
              | raised exc stored =>
                  cases tail
                  refine .inl ⟨rfl, rfl, fun result hresult => ?_⟩
                  cases hresult
                  exact .consumer exc stored
              | returned => exact .inr ⟨_, rfl, tail⟩

theorem run_emits {rest : Program sig (Except Exc Unit)}
    (ht : (consumeCalibrationResults env fuel).run.Trace events rest) : Emits env [] events := by
  rcases starts ht with ⟨hhanded, hemitted, -⟩ | ⟨later, rfl, htail⟩
  · exact .of_handed_nil hhanded hemitted
  · obtain ⟨hemits, -⟩ := protected_emits htail
    exact ⟨hemits.emitted, hemits.settled⟩

theorem idle_emits {next : Effect.next.Ans → Program sig (Except Exc Unit)}
    (ht : (consumeCalibrationResults env fuel).run.Trace events (.call .next next)) :
    emissions events = expected env [] (handed events) := by
  rcases starts ht with ⟨hhanded, hemitted, -⟩ | ⟨later, rfl, htail⟩
  · rw [hhanded, hemitted]
    rfl
  · exact (protected_emits htail).2.1 next rfl

-- Whatever Kafka and the database answer, the rows and the alerts of a run are those of the
-- messages handed out so far, each once and in order; only the last message may still have
-- some to come, until the next one is asked for.
theorem consumer_emits (env : Env) (fuel : Nat) (events : List (Event sig))
    (rest : Program sig (Except Exc Unit))
    (ht : (consumeCalibrationResults env fuel).run.Trace events rest) :
    emissions events <+: expected env [] (handed events) ∧
      expected env [] (handed events).dropLast <+: emissions events ∧
      (∀ next, rest = .call .next next → emissions events = expected env [] (handed events)) ∧
      ∀ result, rest = .ret result → emissions events = expected env [] (handed events) := by
  refine ⟨(run_emits ht).emitted, (run_emits ht).settled, fun next hnext => ?_, fun result hresult => ?_⟩
  · subst hnext
    exact idle_emits ht
  · rcases starts ht with ⟨hhanded, hemitted, -⟩ | ⟨later, rfl, htail⟩
    · rw [hhanded, hemitted]
      rfl
    · exact (protected_emits htail).2.2 result hresult

-- One iteration of a VQE run, and the row it asks for.
def iterationMessage : Message :=
  ⟨VQE_METRICS_TOPIC, .json (.obj [("experiment_id", .str "e"), ("iteration", .int 1),
    ("params", .arr []), ("energy", .int (-1)), ("quantum_time_s", .int 2),
    ("classical_time_s", .int 0), ("retry_count", .int 0), ("circuit_breaker_trips", .int 0),
    ("timestamp", .str "2024-01-01")])⟩

def iterationInsert : Insert :=
  ⟨.vqeIterationMetrics, 0, [.value (.str "e"), .value (.int 1), .dumped (.arr []),
    .value (.int (-1)), .value (.int 2), .value (.int 0), .value (.int 0), .value (.int 0)]⟩

-- A calibration result of the simulator, and the row it asks for.
def sampleMessage (errorRate : ℚ) : Message :=
  ⟨CALIBRATION_TOPIC, .json (.obj [("backend_name", .str "aer-simulator"),
    ("error_rate", .float errorRate), ("shots", .int 1024), ("timestamp", .str "2024-01-01")])⟩

def sampleInsert (errorRate : ℚ) : Insert :=
  ⟨.calibrationEvents, 0, [.value (.str "aer-simulator"), .value (.float errorRate),
    .value (.int 1024)]⟩

-- The database is down at first, and the consumer goes on until it is stopped. The mean of the
-- second sample is still above the threshold, that of the third is not.
def unstoredEvents : List (Event sig) :=
  [⟨.createPool, .returned⟩, ⟨.start, .returned⟩, ⟨.next, .ok (some iterationMessage)⟩,
    ⟨.execute iterationInsert, .raised ⟨.named "ConnectionDoesNotExistError", ""⟩ false⟩,
    ⟨.next, .ok (some (sampleMessage (1 / 8)))⟩, ⟨.warning (.text "aer-simulator") (1 / 8), ()⟩,
    ⟨.execute (sampleInsert (1 / 8)), .returned⟩,
    ⟨.next, .ok (some (sampleMessage 0))⟩, ⟨.warning (.text "aer-simulator") (1 / 16), ()⟩,
    ⟨.execute (sampleInsert 0), .returned⟩,
    ⟨.next, .ok (some (sampleMessage 0))⟩, ⟨.execute (sampleInsert 0), .returned⟩,
    ⟨.next, .ok none⟩, ⟨.stop, .returned⟩, ⟨.close, .returned⟩]

theorem sample_returns {samples later : Samples} {errorRate average : ℚ}
    (hadd : addSample samples (.str "aer-simulator") (.float errorRate) =
      .ok (later, .text "aer-simulator", average)) :
    (consumeMessage ⟨fun _ => .ok 0⟩ samples (sampleMessage errorRate)).run.Returns
      ((if ALERT_THRESHOLD < average then [⟨.warning (.text "aer-simulator") average, ()⟩] else []) ++
        [⟨.execute (sampleInsert errorRate), .returned⟩]) (.ok later) := by
  have hinsert : (Py.exceptException (insertCalibrationEvent ⟨fun _ => .ok 0⟩
      (.obj [("backend_name", .str "aer-simulator"), ("error_rate", .float errorRate),
        ("shots", .int 1024), ("timestamp", .str "2024-01-01")])) (fun _ => pure ()) >>= fun _ =>
          (pure later : Py sig Samples)).run.Returns
      [⟨.execute (sampleInsert errorRate), .returned⟩] (.ok later) := .step _ _ _ (.stop _)
  change (Py.ofExcept (addSample samples (.str "aer-simulator") (.float errorRate)) >>= _).run.Returns
    _ _
  rw [hadd, Py.ofExcept_ok, pure_bind]
  split_ifs with halert
  · simp only [if_pos halert]
    exact .step _ _ _ hinsert
  · simp only [if_neg halert]
    exact hinsert

-- The samples of the simulator, and of no other backend.
def holding (window : Deque ℚ DEFAULT_WINDOW_SIZE) : Samples :=
  (∅ : Samples).set (.text "aer-simulator") window

theorem next_returns {env : Env} {fuel : Nat} {samples later : Samples} {message : Message}
    {first second : List (Event sig)} {result : Except Exc Unit}
    (hfirst : (consumeMessage env samples message).run.Returns first (.ok later))
    (hsecond : (consumeMessages env fuel later).run.Returns second result) :
    (consumeMessages env (fuel + 1) samples).run.Returns
      (⟨.next, .ok (some message)⟩ :: (first ++ second)) result := by
  refine .step _ _ _ ?_
  change (consumeMessage env samples message >>= consumeMessages env fuel).run.Returns _ _
  exact Py.returns_then hfirst hsecond

theorem unstored_returns :
    (consumeCalibrationResults ⟨fun _ => .ok 0⟩ 5).run.Returns unstoredEvents (.ok ()) := by
  have hfirst : addSample ∅ (.str "aer-simulator") (.float (1 / 8)) =
      .ok (holding ⟨[1 / 8], by decide⟩, .text "aer-simulator", 1 / 8) :=
    congrArg (fun mean => Except.ok (_, _, mean)) (show [1 / 8].sum / 1 = (1 / 8 : ℚ) by decide +kernel)
  have hsecond : addSample (holding ⟨[1 / 8], by decide⟩) (.str "aer-simulator") (.float 0) =
      .ok (holding ⟨[1 / 8, 0], by decide⟩, .text "aer-simulator", 1 / 16) :=
    congrArg (fun mean => Except.ok (_, _, mean))
      (show [1 / 8, 0].sum / 2 = (1 / 16 : ℚ) by decide +kernel)
  have hthird : addSample (holding ⟨[1 / 8, 0], by decide⟩) (.str "aer-simulator") (.float 0) =
      .ok (holding ⟨[1 / 8, 0, 0], by decide⟩, .text "aer-simulator", 1 / 24) :=
    congrArg (fun mean => Except.ok (_, _, mean))
      (show [1 / 8, 0, 0].sum / 3 = (1 / 24 : ℚ) by decide +kernel)
  have hiteration : (consumeMessage ⟨fun _ => .ok 0⟩ ∅ iterationMessage).run.Returns
      [⟨.execute iterationInsert, .raised ⟨.named "ConnectionDoesNotExistError", ""⟩ false⟩]
      (.ok ∅) := .step _ _ _ (.stop _)
  have hended : (consumeMessages ⟨fun _ => .ok 0⟩ 1
      (holding ⟨[1 / 8, 0, 0], by decide⟩)).run.Returns [⟨.next, .ok none⟩] (.ok ()) :=
    .step _ _ _ (.stop _)
  have hloop := next_returns hiteration (next_returns (sample_returns hfirst)
    (next_returns (sample_returns hsecond) (next_returns (sample_returns hthird) hended)))
  have hhigh : ALERT_THRESHOLD < 1 / 8 := by decide +kernel
  have hstill : ALERT_THRESHOLD < 1 / 16 := by decide +kernel
  have hlow : ¬ ALERT_THRESHOLD < 1 / 24 := by decide +kernel
  rw [if_pos hhigh, if_pos hstill, if_neg hlow] at hloop
  refine .step _ _ _ (.step _ _ _ ?_)
  exact (Py.returns_withFinally _ _ _ _).mpr ⟨_, [⟨.stop, .returned⟩, ⟨.close, .returned⟩], _,
    .ok (), rfl, hloop, .step _ _ _ (.step _ _ _ (.stop _)), rfl⟩

theorem consumer_emits_unstored :
    [.insert iterationInsert, .alert (.text "aer-simulator") (1 / 8),
        .insert (sampleInsert (1 / 8)), .alert (.text "aer-simulator") (1 / 16),
        .insert (sampleInsert 0), .insert (sampleInsert 0)] =
      expected ⟨fun _ => .ok 0⟩ []
        [iterationMessage, sampleMessage (1 / 8), sampleMessage 0, sampleMessage 0] :=
  (consumer_emits _ 5 _ _ unstored_returns).2.2.2 _ rfl

-- A run ends before its `try`, or as its loop ended, and then the consumer is stopped and the
-- pool closed. No failure of the database, other than a cancellation, ends the loop.
theorem consumer_exits (env : Env) (fuel : Nat) (events : List (Event sig))
    (result : Except Exc Unit)
    (hreturns : (consumeCalibrationResults env fuel).run.Returns events result) :
    Unstarted events result ∨ ∃ loop cleanup ended cleaned,
      events = ⟨.createPool, .returned⟩ :: ⟨.start, .returned⟩ :: (loop ++ cleanup) ∧
      Ends loop ended ∧ Cleaned cleanup cleaned ∧ result = Py.finallyResult ended cleaned := by
  rcases starts hreturns with ⟨-, -, hunstarted⟩ | ⟨later, rfl, htail⟩
  · exact .inl (hunstarted result rfl)
  · obtain ⟨loop, cleanup, ended, cleaned, rfl, hloop, hcleanup, hresult⟩ :=
      (Py.returns_withFinally _ _ _ _).mp htail
    obtain ⟨-, -, hend⟩ := consumeMessages_emits fuel Holds.empty hloop
    exact .inr ⟨loop, cleanup, ended, cleaned, rfl, (hend _ rfl).2, shutdown_cleaned hcleanup,
      hresult⟩

theorem consumer_exits_unstored : Unstarted unstoredEvents (.ok ()) ∨
    ∃ loop cleanup ended cleaned,
      unstoredEvents = ⟨.createPool, .returned⟩ :: ⟨.start, .returned⟩ :: (loop ++ cleanup) ∧
      Ends loop ended ∧ Cleaned cleanup cleaned ∧
      (.ok () : Except Exc Unit) = Py.finallyResult ended cleaned :=
  consumer_exits _ 5 _ _ unstored_returns

end process

end QuantumPlatform.Stream.Consumer
