import QuantumPlatform.Api.Records
import Mathlib.Data.Multiset.Filter
import Mathlib.Data.Multiset.ZeroCons

namespace QuantumPlatform.Api

open Process Python

theorem statusByMessage_ok (status : Json) (found : Option ExperimentStatus)
    (hfound : statusByMessage status = .ok found) : recognised status = found := by
  simp only [recognised, hfound]

theorem recognised_terminal (resultMsg : ExperimentResultMessage) (status : ExperimentStatus)
    (hstatus : recognised resultMsg.status = some status) :
    resultMsg.terminal = status.terminal := by
  rcases resultMsg with ⟨experimentId, text, result, error⟩
  simp only [recognised, statusByMessage] at hstatus
  cases text with
  | str text =>
      by_cases hw : text = "waiting_for_calibration"
      · subst hw
        simp [Json.hashable, Json.isStr] at hstatus
        subst hstatus
        rfl
      · by_cases hc : text = "completed"
        · subst hc
          simp [Json.hashable, Json.isStr] at hstatus
          subst hstatus
          rfl
        · by_cases hf : text = "failed"
          · subst hf
            simp [Json.hashable, Json.isStr] at hstatus
            subst hstatus
            rfl
          · simp [Json.hashable, Json.isStr, hw, hc, hf] at hstatus
  | _ => simp [Json.hashable, Json.isStr] at hstatus

theorem exec_storeGet (world : World) (key : Json) :
    (storeGet key).run.exec World.answer world = (world.store.lookup key, world) := by
  unfold storeGet
  rw [Py.exec_bind]
  exact @Py.exec_ofExcept sig _ _ World.answer world (world.store.lookup key)

-- The consumer's read and write of one record, in one equation.
theorem exec_applyResultMessage (world : World) (resultMsg : ExperimentResultMessage) :
    (applyResultMessage resultMsg).run.exec World.answer world =
      match world.store.lookup resultMsg.experimentId with
      | .error exc => (.error exc, world)
      | .ok none => (.ok none, world)
      | .ok (some existing) =>
          match statusByMessage resultMsg.status with
          | .error exc => (.error exc, world)
          | .ok none => (.ok none, world)
          | .ok (some status) =>
              (.ok (some (existing.update status resultMsg world.now)),
                { world with
                  store := world.store.save (existing.update status resultMsg world.now) }) := by
  unfold applyResultMessage
  rw [Py.exec_bind, exec_storeGet]
  rcases world.store.lookup resultMsg.experimentId with exc | _ | existing
  · rfl
  · rfl
  · simp only
    rw [Py.exec_bind, Py.exec_ofExcept]
    rcases statusByMessage resultMsg.status with exc | _ | status
    · rfl
    · rfl
    · unfold ExperimentResponse.update
      cases hterminal : resultMsg.terminal
      · simp only [Bool.false_eq_true, if_false]
        rfl
      · simp only [if_true]
        rfl

theorem InMemoryExperimentStore.apply_eq (store : InMemoryExperimentStore)
    (resultMsg : ExperimentResultMessage) (now : DateTime) :
    store.apply resultMsg now =
      match store.lookup resultMsg.experimentId, recognised resultMsg.status with
      | .ok (some existing), some status => store.save (existing.update status resultMsg now)
      | _, _ => store := by
  unfold InMemoryExperimentStore.apply recognised
  rw [exec_applyResultMessage]
  rcases store.lookup resultMsg.experimentId with exc | _ | existing
  · rfl
  · rfl
  · rcases statusByMessage resultMsg.status with exc | _ | status <;> rfl

namespace InMemoryExperimentStore

variable {store middle later : InMemoryExperimentStore} {experiment : ExperimentResponse}

theorem Keeps.refl (store : InMemoryExperimentStore) : store.Keeps store :=
  fun _ old hget _ => ⟨old, hget, rfl⟩

theorem Keeps.trans (hfirst : store.Keeps middle) (hsecond : middle.Keeps later) :
    store.Keeps later := by
  intro experimentId old hget hterminal
  obtain ⟨new, hnew, houtcome⟩ := hfirst experimentId old hget hterminal
  have hstatus : new.status = old.status := congrArg Prod.fst houtcome
  obtain ⟨last, hlast, hrest⟩ := hsecond experimentId new hnew (hstatus ▸ hterminal)
  exact ⟨last, hlast, hrest.trans houtcome⟩

-- A save over no record, or over one that is not terminal, keeps the terminal ones.
theorem keeps_save (hopen : ∀ old, store.get experiment.id = some old → old.status.terminal = false) :
    store.Keeps (store.save experiment) := by
  intro experimentId old hget hterminal
  by_cases hid : experimentId = experiment.id
  · subst hid
    rw [hopen old hget] at hterminal
    cases hterminal
  · exact ⟨old, by rw [get_save_of_ne store experiment experimentId hid, hget], rfl⟩

theorem keeps_after {outcome : Outcome} (hopen : outcome.stored = true →
      ∀ old, store.get experiment.id = some old → old.status.terminal = false) :
    store.Keeps (store.after (.storeSave experiment) outcome) := by
  by_cases hstored : outcome.stored = true
  · have hsave : store.after (.storeSave experiment) outcome = store.save experiment :=
      if_pos hstored
    rw [hsave]
    exact keeps_save (hopen hstored)
  · have hlost : store.after (.storeSave experiment) outcome = store := if_neg hstored
    rw [hlost]
    exact .refl _

theorem lookup_eq_some (store : InMemoryExperimentStore) (key : Json)
    (existing : ExperimentResponse) :
    store.lookup key = .ok (some existing) ↔
      ∃ experimentId, key = .str experimentId ∧ store.get experimentId = some existing := by
  cases key <;> simp [lookup, Json.hashable]

theorem Extends.refl (store : InMemoryExperimentStore) : store.Extends store :=
  fun _ old hget => ⟨old, hget, rfl⟩

theorem Extends.trans (hfirst : store.Extends middle) (hsecond : middle.Extends later) :
    store.Extends later := by
  intro experimentId old hget
  obtain ⟨new, hnew, hidentity⟩ := hfirst experimentId old hget
  obtain ⟨last, hlast, hsame⟩ := hsecond experimentId new hnew
  exact ⟨last, hlast, hsame.trans hidentity⟩

-- A save that adds a record, or keeps the identity of the one it replaces.
theorem extends_save
    (hsame : ∀ old, store.get experiment.id = some old → experiment.identity = old.identity) :
    store.Extends (store.save experiment) := by
  intro experimentId old hget
  by_cases hid : experimentId = experiment.id
  · subst hid
    exact ⟨experiment, get_save_self store experiment, hsame old hget⟩
  · exact ⟨old, by rw [get_save_of_ne store experiment experimentId hid, hget], rfl⟩

theorem get_save_eq {experimentId : String} {found : ExperimentResponse}
    (hget : (store.save experiment).get experimentId = some found) :
    found = experiment ∨ store.get experimentId = some found := by
  rw [get_save] at hget
  split_ifs at hget
  · exact .inl (Option.some.inj hget).symm
  · exact .inr hget

end InMemoryExperimentStore

theorem ExperimentResponse.identity_id {experiment other : ExperimentResponse}
    (h : experiment.identity = other.identity) : experiment.id = other.id :=
  congrArg Prod.fst h

section calls

-- A record is saved before its task is published, and saved again only as itself.
theorem submitExperiment_submitting (request : ExperimentRequest) :
    submitting.Obeys (fun _ _ => True) .started (submitExperiment request).run := by
  refine ⟨trivial, fun (experimentId : String) _ => ⟨trivial, fun (submittedAt : Int) _ => ?_⟩⟩
  refine ⟨⟨rfl, rfl, iff_of_false (fun hset => hset rfl) nofun⟩, fun saved _ => ?_⟩
  cases saved with
  | raised exc stored => trivial
  | returned =>
      refine ⟨⟨⟨.str experimentId, .str request.algorithm.value, request.modelDump⟩, rfl, rfl⟩,
        fun outcome _ => ?_⟩
      cases outcome with
      | returned => trivial
      | raised exc stored =>
          change submitting.Obeys _ _ (if exc.isException then _ else _)
          split_ifs
          · refine ⟨trivial, fun (completedAt : Int) _ => ⟨⟨rfl, ⟨rfl, ?_⟩, rfl⟩, fun failed _ => ?_⟩⟩
            · exact iff_of_true nofun rfl
            · cases failed <;> trivial
          · trivial

-- What a call of apply_result_message does, for whatever follows what it has read: it looks the
-- record up, looks at the clock if the message is terminal, and saves what it makes of the record.
theorem obeys_applyResultMessage {resultMsg : ExperimentResultMessage}
    {allowed : Option ExperimentResponse → Effect → Prop}
    {admits : Option ExperimentResponse → (op : Effect) → op.Ans → Prop}
    (hget : allowed none (.storeGet resultMsg.experimentId))
    (hclock : ∀ existing, allowed (some existing) .utcnow)
    (hsave : ∀ existing status now,
      admits none (.storeGet resultMsg.experimentId) (.ok (some existing)) →
        statusByMessage resultMsg.status = .ok (some status) →
        allowed (some existing) (.storeSave (existing.update status resultMsg now))) :
    (⟨allowed, admits, readAfter⟩ : Monitor sig (Option ExperimentResponse)).Obeys
      (fun _ _ => True) none (applyResultMessage resultMsg).run := by
  refine ⟨hget, fun answer hadmits => ?_⟩
  rcases answer with exc | _ | existing
  · trivial
  · trivial
  · change Monitor.Obeys _ _ (some existing) (Py.ofExcept (statusByMessage resultMsg.status) >>= _).run
    cases hstatus : statusByMessage resultMsg.status with
    | error exc => trivial
    | ok found =>
        cases found with
        | none => trivial
        | some status =>
            have hsaved := fun now => hsave existing status now hadmits hstatus
            simp only [ExperimentResponse.update] at hsaved
            cases hterminal : resultMsg.terminal with
            | false =>
                simp only [hterminal, Bool.false_eq_true, if_false] at hsaved ⊢
                refine ⟨hsaved 0, fun outcome _ => ?_⟩
                cases outcome <;> trivial
            | true =>
                simp only [hterminal, if_true] at hsaved ⊢
                refine ⟨hclock existing, fun (now : Int) _ => ⟨hsaved now, fun outcome _ => ?_⟩⟩
                cases outcome <;> trivial

-- A record is saved over the one that was read, and only for a status that is known.
theorem applyResultMessage_updating (resultMsg : ExperimentResultMessage) :
    (updating resultMsg).Obeys (fun _ _ => True) none (applyResultMessage resultMsg).run :=
  obeys_applyResultMessage rfl (fun _ => trivial) fun _ _ _ _ hstatus =>
    ⟨rfl, statusByMessage_ok _ _ hstatus⟩

-- Only a new id and a save move a call of submit_experiment on.
theorem next_eq {phase : SubmitPhase} {op : Effect} (answer : op.Ans) (hid : op ≠ .uuid4)
    (hsave : ∀ experiment, op ≠ .storeSave experiment) : submitting.next phase op answer = phase := by
  cases op with
  | uuid4 => exact absurd rfl hid
  | storeSave experiment => exact absurd rfl (hsave experiment)
  | _ => cases phase <;> rfl

end calls

namespace Records

-- What is known of a running call of submit_experiment.
structure Submits (store : InMemoryExperimentStore) (call : Submitting) : Prop where
  obeys : submitting.Obeys (fun _ _ => True) call.phase call.rest
  opened : ∀ record, call.phase = .opened record → ∃ experiment,
    store.get record.id = some experiment ∧ experiment.identity = record.identity

-- What is known of a running call of apply_result_message.
structure Updates (store : InMemoryExperimentStore) (application : Applying) : Prop where
  obeys : (updating application.resultMsg).Obeys (fun _ _ => True) application.existing
    application.rest
  read : ∀ existing, application.existing = some existing →
    application.resultMsg.experimentId = .str existing.id ∧ ∃ experiment,
      store.get existing.id = some experiment ∧ experiment.identity = existing.identity

def pendings (submissions : Multiset Submitting) : Multiset String :=
  submissions.filterMap Submitting.pending

-- The ids that calls have been given and not used yet are all different, and new
-- to the store.
structure Fresh (records : Records) : Prop where
  distinct : (pendings records.submissions).Nodup
  issued : ∀ experimentId ∈ pendings records.submissions, experimentId ∈ records.issued
  unused : ∀ experimentId ∈ pendings records.submissions, records.store.get experimentId = none
  stored : ∀ experimentId experiment, records.store.get experimentId = some experiment →
    experimentId ∈ records.issued

structure Sound (records : Records) : Prop where
  submits : ∀ call ∈ records.submissions, Submits records.store call
  updates : ∀ application ∈ records.applications, Updates records.store application
  fresh : records.Fresh

variable {records next later : Records} {label : Label} {labels : List Label}
  {store grown : InMemoryExperimentStore}

theorem Submits.mono {call : Submitting} (h : Submits store call) (hextends : store.Extends grown) :
    Submits grown call where
  obeys := h.obeys
  opened record hphase := by
    obtain ⟨experiment, hget, hidentity⟩ := h.opened record hphase
    obtain ⟨new, hnew, hsame⟩ := hextends record.id experiment hget
    exact ⟨new, hnew, hsame.trans hidentity⟩

theorem Updates.mono {application : Applying} (h : Updates store application)
    (hextends : store.Extends grown) : Updates grown application where
  obeys := h.obeys
  read existing hread := by
    obtain ⟨hkey, experiment, hget, hidentity⟩ := h.read existing hread
    obtain ⟨new, hnew, hsame⟩ := hextends existing.id experiment hget
    exact ⟨hkey, new, hnew, hsame.trans hidentity⟩

theorem sound_empty : Sound {} where
  submits _ hmem := absurd hmem (Multiset.notMem_zero _)
  updates _ hmem := absurd hmem (Multiset.notMem_zero _)
  fresh := by
    refine ⟨Multiset.nodup_zero, fun _ hmem => absurd hmem (Multiset.notMem_zero _),
      fun _ hmem => absurd hmem (Multiset.notMem_zero _), fun experimentId experiment hget => ?_⟩
    change (∅ : Dict String ExperimentResponse).get? experimentId = some experiment at hget
    rw [Dict.get?_empty] at hget
    cases hget

section perform

variable {phase : SubmitPhase} {op : Effect} {rest : op.Ans → Submission}
  {others : Multiset Submitting} (answer : op.Ans)

theorem pendings_cons (call : Submitting) (others : Multiset Submitting) :
    pendings (call ::ₘ others) = match call.pending with
      | some experimentId => experimentId ::ₘ pendings others
      | none => pendings others := by
  unfold pendings
  cases hpending : call.pending with
  | none => exact Multiset.filterMap_cons_none _ _ hpending
  | some experimentId => exact Multiset.filterMap_cons_some _ _ _ hpending

-- What one answered call of submit_experiment does to the store: nothing, or it saves a
-- record, consistent, that is new or has the identity of the one that is there. Only the second
-- save, of a failed record, is over another.
theorem Sound.perform_saves (hsound : records.Sound)
    (running : records.submissions = ⟨phase, .call op rest⟩ ::ₘ others) :
    records.store.after op answer = records.store ∨ ∃ experiment,
      op = .storeSave experiment ∧ records.store.after op answer = records.store.save experiment ∧
      experiment.Consistent ∧
      (records.store.get experiment.id = none ∨ experiment.status = .failed ∧ ∃ old,
        records.store.get experiment.id = some old ∧ experiment.identity = old.identity) := by
  have hcall := hsound.submits ⟨phase, .call op rest⟩ (head_mem running)
  have hallowed := hcall.obeys.1
  cases op with
  | storeSave experiment =>
      simp only [InMemoryExperimentStore.after]
      split_ifs
      · refine .inr ⟨experiment, rfl, rfl, ?_⟩
        cases phase with
        | started => exact hallowed.elim
        | issued experimentId =>
            -- the id is new, so there is nothing to replace
            obtain ⟨rfl, hconsistent⟩ := hallowed
            refine ⟨hconsistent, .inl (hsound.fresh.unused _ ?_)⟩
            rw [running, pendings_cons]
            exact Multiset.mem_cons_self _ _
        | opened record =>
            obtain ⟨hsame, hconsistent, hfailed⟩ := hallowed
            obtain ⟨found, hfound, hidentity⟩ := hcall.opened record rfl
            refine ⟨hconsistent, .inr ⟨hfailed, found, ?_, hsame.trans hidentity.symm⟩⟩
            rw [ExperimentResponse.identity_id hsame, hfound]
      · exact .inl rfl
  | _ => exact .inl rfl

theorem Sound.perform_extends (hsound : records.Sound)
    (running : records.submissions = ⟨phase, .call op rest⟩ ::ₘ others) :
    records.store.Extends (records.store.after op answer) := by
  rcases hsound.perform_saves answer running with
    hsame | ⟨experiment, -, hsave, -, hnone | ⟨-, old, hold, hidentity⟩⟩
  · rw [hsame]
    exact .refl _
  · rw [hsave]
    refine InMemoryExperimentStore.extends_save fun found hfound => ?_
    rw [hnone] at hfound
    cases hfound
  · rw [hsave]
    refine InMemoryExperimentStore.extends_save fun found hfound => ?_
    rw [hold, Option.some_inj] at hfound
    rw [hidentity, hfound]

theorem Sound.perform_submits (hsound : records.Sound)
    (running : records.submissions = ⟨phase, .call op rest⟩ ::ₘ others) :
    Submits (records.store.after op answer) ⟨submitting.next phase op answer, rest answer⟩ := by
  have hcall := hsound.submits ⟨phase, .call op rest⟩ (head_mem running)
  refine ⟨hcall.obeys.2 answer trivial, fun record hphase => ?_⟩
  have hkept := (hcall.mono (hsound.perform_extends answer running)).opened record
  cases phase with
  | opened opened => exact hkept hphase
  | started =>
      cases op with
      | uuid4 => cases hphase
      | _ => cases hphase
  | issued experimentId =>
      cases op with
      | storeSave experiment =>
          change (if Outcome.stored answer then SubmitPhase.opened experiment
            else .issued experimentId) = .opened record at hphase
          simp only [InMemoryExperimentStore.after]
          split_ifs at hphase ⊢
          obtain rfl := SubmitPhase.opened.inj hphase
          exact ⟨experiment, records.store.get_save_self experiment, rfl⟩
      | _ => cases hphase

-- A save neither makes an unused id known nor stores an id that was not issued.
theorem Fresh.save {experiment : ExperimentResponse} (hfresh : records.Fresh)
    (hissued : experiment.id ∈ records.issued) (submissions : Multiset Submitting)
    (hle : pendings submissions ≤ pendings records.submissions)
    (hnew : experiment.id ∉ pendings submissions) :
    Fresh { records with store := records.store.save experiment, submissions := submissions } where
  distinct := Multiset.nodup_of_le hle hfresh.distinct
  issued experimentId hmem := hfresh.issued experimentId (Multiset.mem_of_le hle hmem)
  unused experimentId hmem := by
    have hne : experimentId ≠ experiment.id := fun hsame => hnew (hsame ▸ hmem)
    change (records.store.save experiment).get experimentId = none
    rw [InMemoryExperimentStore.get_save_of_ne _ _ _ hne]
    exact hfresh.unused experimentId (Multiset.mem_of_le hle hmem)
  stored experimentId found hget := by
    change (records.store.save experiment).get experimentId = some found at hget
    rw [InMemoryExperimentStore.get_save] at hget
    split_ifs at hget with hid
    · rw [hid]
      exact hissued
    · exact hfresh.stored experimentId found hget

-- An id that has just been issued is in no record yet.
theorem Fresh.issue {experimentId : String} (hfresh : records.Fresh)
    (hnew : experimentId ∉ records.issued) (submissions : Multiset Submitting)
    (hpending : pendings submissions = experimentId ::ₘ pendings records.submissions) :
    Fresh { records with
      issued := experimentId :: records.issued, submissions := submissions } where
  distinct := by
    rw [hpending]
    exact Multiset.nodup_cons.mpr ⟨fun hmem => hnew (hfresh.issued _ hmem), hfresh.distinct⟩
  issued other hmem := by
    rw [hpending] at hmem
    rcases Multiset.mem_cons.mp hmem with rfl | hold
    · exact List.mem_cons_self
    · exact List.mem_cons_of_mem _ (hfresh.issued other hold)
  unused other hmem := by
    rw [hpending] at hmem
    rcases Multiset.mem_cons.mp hmem with rfl | hold
    · change records.store.get _ = none
      cases hget : records.store.get other with
      | none => rfl
      | some experiment => exact absurd (hfresh.stored other experiment hget) hnew
    · exact hfresh.unused other hold
  stored other experiment hget := List.mem_cons_of_mem _ (hfresh.stored other experiment hget)

theorem Fresh.keep (hfresh : records.Fresh) (submissions : Multiset Submitting)
    (hpending : pendings submissions = pendings records.submissions) :
    Fresh { records with submissions := submissions } := by
  obtain ⟨hdistinct, hissued, hunused, hstored⟩ := hfresh
  rw [← hpending] at hdistinct hissued hunused
  exact ⟨hdistinct, hissued, hunused, hstored⟩

-- A call that stays where it is has the same id pending.
theorem pendings_of_next (running : records.submissions = ⟨phase, .call op rest⟩ ::ₘ others)
    (hnext : submitting.next phase op answer = phase) :
    pendings (⟨submitting.next phase op answer, rest answer⟩ ::ₘ others) =
      pendings records.submissions := by
  rw [hnext, running, pendings_cons, pendings_cons]
  rfl

theorem Fresh.perform_save {experiment : ExperimentResponse} {outcome : Outcome}
    {rest : Outcome → Submission} (hsound : records.Sound)
    (running : records.submissions = ⟨phase, .call (.storeSave experiment) rest⟩ ::ₘ others)
    (hstored : outcome.stored = true) :
    Fresh { records with
      store := records.store.save experiment,
      submissions := ⟨submitting.next phase (.storeSave experiment) outcome, rest outcome⟩ ::ₘ
        others } := by
  have hfresh := hsound.fresh
  have hcall := hsound.submits ⟨phase, .call (.storeSave experiment) rest⟩ (head_mem running)
  have hallowed := hcall.obeys.1
  cases phase with
  | started => exact hallowed.elim
  | issued experimentId =>
      have hnext : submitting.next (.issued experimentId) (.storeSave experiment) outcome =
          .opened experiment := if_pos hstored
      have hpending : pendings records.submissions = experimentId ::ₘ pendings others := by
        rw [running, pendings_cons]
        rfl
      have hleft : pendings (⟨.opened experiment, rest outcome⟩ ::ₘ others) = pendings others :=
        pendings_cons _ _
      have hmem : experiment.id ∈ pendings records.submissions := by
        rw [hpending, hallowed.1]
        exact Multiset.mem_cons_self _ _
      have hdistinct := hfresh.distinct
      rw [hpending, Multiset.nodup_cons, ← hallowed.1] at hdistinct
      rw [hnext]
      refine hfresh.save (hfresh.issued _ hmem) _ ?_ ?_
      · rw [hleft, hpending]
        exact Multiset.le_cons_self _ _
      · rw [hleft]
        exact hdistinct.1
  | opened record =>
      obtain ⟨found, hfound, -⟩ := hcall.opened record rfl
      have hid : experiment.id = record.id := ExperimentResponse.identity_id hallowed.1
      rw [← hid] at hfound
      have hpending : pendings (⟨.opened record, rest outcome⟩ ::ₘ others) =
          pendings records.submissions := pendings_of_next _ running rfl
      refine hfresh.save (hfresh.stored _ found hfound) _ hpending.le fun hmem => ?_
      rw [hfresh.unused _ (Multiset.mem_of_le hpending.le hmem)] at hfound
      cases hfound

theorem Fresh.perform (hsound : records.Sound)
    (running : records.submissions = ⟨phase, .call op rest⟩ ::ₘ others)
    (answers : records.Answers op answer) :
    Fresh { records with
      store := records.store.after op answer,
      issued := records.issuedAfter op answer,
      submissions := ⟨submitting.next phase op answer, rest answer⟩ ::ₘ others } := by
  have hfresh := hsound.fresh
  have hallowed := (hsound.submits ⟨phase, .call op rest⟩ (head_mem running)).obeys.1
  cases op with
  | uuid4 =>
      cases phase with
      | issued experimentId => exact hallowed.elim
      | opened record => exact hallowed.elim
      | started =>
          refine hfresh.issue answers _ ?_
          rw [running, pendings_cons, pendings_cons]
          rfl
  | storeSave experiment =>
      by_cases hstored : Outcome.stored answer = true
      · have hsaved : records.store.after (.storeSave experiment) answer =
            records.store.save experiment := if_pos hstored
        rw [hsaved]
        exact .perform_save hsound running hstored
      · have hlost : records.store.after (.storeSave experiment) answer = records.store :=
          if_neg hstored
        have hnext : submitting.next phase (.storeSave experiment) answer = phase := by
          cases phase with
          | issued experimentId => exact if_neg hstored
          | started => rfl
          | opened record => rfl
        rw [hlost]
        exact hfresh.keep _ (pendings_of_next answer running hnext)
  | _ => exact hfresh.keep _ (pendings_of_next _ running (next_eq _ nofun nofun))

theorem Sound.perform (hsound : records.Sound)
    (running : records.submissions = ⟨phase, .call op rest⟩ ::ₘ others)
    (answers : records.Answers op answer) :
    Sound { records with
      store := records.store.after op answer,
      issued := records.issuedAfter op answer,
      submissions := ⟨submitting.next phase op answer, rest answer⟩ ::ₘ others } where
  submits call hmem := by
    rcases Multiset.mem_cons.mp hmem with rfl | hold
    · exact hsound.perform_submits answer running
    · exact (hsound.submits call (others_mem running hold)).mono
        (hsound.perform_extends answer running)
  updates application hmem :=
    (hsound.updates application hmem).mono (hsound.perform_extends answer running)
  fresh := .perform answer hsound running answers

end perform

section apply

variable {resultMsg : ExperimentResultMessage} {stray : Bool}
  {existing : Option ExperimentResponse} {op : Effect}
  {rest : op.Ans → Program sig (Except Exc (Option ExperimentResponse))}
  {others : Multiset Applying} (answer : op.Ans)

-- What apply_result_message saves: the record that it has read, with the status of the message.
theorem Sound.apply_save {experiment : ExperimentResponse}
    {rest : Outcome → Program sig (Except Exc (Option ExperimentResponse))} (hsound : records.Sound)
    (running : records.applications =
      ⟨resultMsg, stray, existing, .call (.storeSave experiment) rest⟩ ::ₘ others) :
    recognised resultMsg.status = some experiment.status ∧
      resultMsg.experimentId = .str experiment.id ∧
      ∃ old, records.store.get experiment.id = some old ∧ experiment.identity = old.identity := by
  have happlies := hsound.updates _ (head_mem running)
  have hallowed := happlies.obeys.1
  cases existing with
  | none => exact hallowed.elim
  | some existing =>
      obtain ⟨hidentity, hstatus⟩ := hallowed
      obtain ⟨hkey, old, hold, hsame⟩ := happlies.read existing rfl
      have hid : experiment.id = existing.id := ExperimentResponse.identity_id hidentity
      rw [← hid] at hkey hold
      exact ⟨hstatus, hkey, old, hold, hidentity.trans hsame.symm⟩

-- What one answered call of apply_result_message does to the store.
theorem Sound.apply_saves (hsound : records.Sound)
    (running : records.applications = ⟨resultMsg, stray, existing, .call op rest⟩ ::ₘ others) :
    records.store.after op answer = records.store ∨ ∃ experiment,
      op = .storeSave experiment ∧ records.store.after op answer = records.store.save experiment ∧
      resultMsg.experimentId = .str experiment.id ∧
      ∃ old, records.store.get experiment.id = some old ∧ experiment.identity = old.identity := by
  cases op with
  | storeSave experiment =>
      simp only [InMemoryExperimentStore.after]
      split_ifs
      · exact .inr ⟨experiment, rfl, rfl, (hsound.apply_save running).2⟩
      · exact .inl rfl
  | _ => exact .inl rfl

theorem Sound.apply_extends (hsound : records.Sound)
    (running : records.applications = ⟨resultMsg, stray, existing, .call op rest⟩ ::ₘ others) :
    records.store.Extends (records.store.after op answer) := by
  rcases hsound.apply_saves answer running with
    hsame | ⟨experiment, -, hsave, -, old, hold, hidentity⟩
  · rw [hsame]
    exact .refl _
  · rw [hsave]
    refine InMemoryExperimentStore.extends_save fun found hfound => ?_
    rw [hold, Option.some_inj] at hfound
    rw [hidentity, hfound]

-- A record that is read is the one in the store.
theorem Sound.apply_reads (hsound : records.Sound)
    (running : records.applications = ⟨resultMsg, stray, existing, .call op rest⟩ ::ₘ others)
    (answers : records.Answers op answer) :
    Updates (records.store.after op answer)
      ⟨resultMsg, stray, readAfter existing op answer, rest answer⟩ := by
  have happlies := hsound.updates ⟨resultMsg, stray, existing, .call op rest⟩ (head_mem running)
  have hallowed := happlies.obeys.1
  have hlater := happlies.mono (hsound.apply_extends answer running)
  refine ⟨happlies.obeys.2 answer trivial, fun found hnext => ?_⟩
  cases op with
  | storeGet key =>
      cases existing with
      | some existing => exact hallowed.elim
      | none =>
          rcases answer with exc | _ | record
          · cases hnext
          · cases hnext
          · obtain rfl : record = found := Option.some.inj hnext
            rcases answers with hlookup | ⟨exc, hfailed⟩
            · obtain ⟨experimentId, hkey, hget⟩ :=
                (InMemoryExperimentStore.lookup_eq_some _ key record).mp hlookup.symm
              obtain rfl : record.id = experimentId := records.store.keyed _ record hget
              exact ⟨hallowed.symm.trans hkey, record, hget, rfl⟩
            · cases hfailed
  | _ => cases existing <;> exact hlater.read found hnext

theorem Sound.apply (hsound : records.Sound)
    (running : records.applications = ⟨resultMsg, stray, existing, .call op rest⟩ ::ₘ others)
    (answers : records.Answers op answer) :
    Sound { records with
      store := records.store.after op answer,
      applications := ⟨resultMsg, stray, readAfter existing op answer, rest answer⟩ ::ₘ others } where
  submits call hmem := (hsound.submits call hmem).mono (hsound.apply_extends answer running)
  updates application hmem := by
    rcases Multiset.mem_cons.mp hmem with rfl | hold
    · exact hsound.apply_reads answer running answers
    · exact (hsound.updates application (others_mem running hold)).mono
        (hsound.apply_extends answer running)
  fresh := by
    have hfresh := hsound.fresh
    rcases hsound.apply_saves answer running with hsame | ⟨saved, -, hsave, -, old, hold, -⟩
    · rw [hsame]
      exact ⟨hfresh.distinct, hfresh.issued, hfresh.unused, hfresh.stored⟩
    · rw [hsave]
      have hlater := hfresh.save (hfresh.stored _ old hold) records.submissions le_rfl
        fun hmem => by
          rw [hfresh.unused _ hmem] at hold
          cases hold
      exact ⟨hlater.distinct, hlater.issued, hlater.unused, hlater.stored⟩

end apply

-- Calls come and go without touching anything.
theorem Sound.with_submissions (hsound : records.Sound) (submissions : Multiset Submitting)
    (hcalls : ∀ call ∈ submissions, Submits records.store call)
    (hle : pendings submissions ≤ pendings records.submissions) :
    Sound { records with submissions := submissions } := by
  have hfresh := hsound.fresh
  have hsub : ∀ experimentId ∈ pendings submissions,
      experimentId ∈ pendings records.submissions :=
    fun _ hmem => Multiset.mem_of_le hle hmem
  exact ⟨hcalls, hsound.updates, Multiset.nodup_of_le hle hfresh.distinct,
    fun experimentId hmem => hfresh.issued experimentId (hsub experimentId hmem),
    fun experimentId hmem => hfresh.unused experimentId (hsub experimentId hmem), hfresh.stored⟩

theorem Sound.with_applications (hsound : records.Sound) (applications : Multiset Applying)
    (happlications : ∀ application ∈ applications, Updates records.store application) :
    Sound { records with applications := applications } :=
  ⟨hsound.submits, happlications, hsound.fresh.distinct, hsound.fresh.issued, hsound.fresh.unused,
    hsound.fresh.stored⟩

theorem Step.sound (last : Step records label next) (hsound : records.Sound) : next.Sound := by
  cases last with
  | submit request =>
      refine hsound.with_submissions _ (fun call hmem => ?_) (pendings_cons _ _).le
      rcases Multiset.mem_cons.mp hmem with rfl | hold
      · exact ⟨submitExperiment_submitting request, nofun⟩
      · exact hsound.submits call hold
  | perform phase op rest answer others running answers =>
      exact hsound.perform answer running answers
  | respond phase result others running =>
      refine hsound.with_submissions others (fun call hmem => hsound.submits call ?_) ?_
      · exact others_mem running hmem
      · rw [running]
        exact Multiset.filterMap_le_filterMap _ (Multiset.le_cons_self _ _)
  | receive resultMsg stray =>
      refine hsound.with_applications _ fun application hmem => ?_
      rcases Multiset.mem_cons.mp hmem with rfl | hold
      · exact ⟨applyResultMessage_updating resultMsg, nofun⟩
      · exact hsound.updates application hold
  | apply resultMsg stray existing op rest answer others running answers =>
      exact hsound.apply answer running answers
  | applied resultMsg stray existing result others running =>
      exact hsound.with_applications others fun application hmem =>
        hsound.updates application (others_mem running hmem)

theorem Step.extends (last : Step records label next) (hsound : records.Sound) :
    records.store.Extends next.store := by
  cases last with
  | perform phase op rest answer others running answers => exact hsound.perform_extends answer running
  | apply resultMsg stray existing op rest answer others running answers =>
      exact hsound.apply_extends answer running
  | submit | respond | receive | applied => exact .refl _

theorem Reachable.append (hreachable : records.Reachable) (run : Run Step records labels later) :
    later.Reachable := by
  obtain ⟨before, first⟩ := hreachable
  exact ⟨_, first.append run⟩

theorem Reachable.sound (hreachable : records.Reachable) : records.Sound := by
  obtain ⟨labels, run⟩ := hreachable
  induction run with
  | start => exact sound_empty
  | step _ last ih => exact last.sound ih

-- The QUEUED save finds no record; the other two find none that is terminal.
theorem Step.keeps (last : Step records label next) (hsound : records.Sound)
    (hspares : records.Spares label) : records.store.Keeps next.store := by
  cases last with
  | perform phase op rest answer others running answers =>
      change records.store.Keeps (records.store.after op answer)
      rcases hsound.perform_saves answer running with
        hsame | ⟨experiment, rfl, hsave, -, hnone | ⟨hfailed, -⟩⟩
      · rw [hsame]
        exact .refl _
      · rw [hsave]
        refine InMemoryExperimentStore.keeps_save fun old hold => ?_
        rw [hnone] at hold
        cases hold
      · exact InMemoryExperimentStore.keeps_after (hspares hfailed)
  | apply resultMsg stray existing op rest answer others running answers =>
      change records.store.Keeps (records.store.after op answer)
      rcases hsound.apply_saves answer running with hsame | ⟨experiment, rfl, -, hkey, -⟩
      · rw [hsame]
        exact .refl _
      · exact InMemoryExperimentStore.keeps_after fun hstored => hspares hstored experiment.id hkey
  | submit | respond | receive | applied => exact .refl _

theorem keeps_of_run (run : Run SparingStep records labels later) (hsound : records.Sound) :
    later.Sound ∧ records.store.Keeps later.store := by
  induction run with
  | start => exact ⟨hsound, .refl _⟩
  | step _ last ih => exact ⟨last.1.sound ih.1, ih.2.trans (last.1.keeps ih.1 last.2)⟩

-- A late waiting notice reopens a record that is terminal, whenever it is saved over one.
theorem Step.keeps_waiting_iff {resultMsg : ExperimentResultMessage} {op : Effect} {answer : op.Ans}
    (last : Step records (.apply resultMsg op answer) next) (hsound : records.Sound)
    (hwaiting : recognised resultMsg.status = some .waitingForCalibration) :
    records.store.Keeps next.store ↔ records.Spares (.apply resultMsg op answer) := by
  refine ⟨fun hkeeps => ?_, last.keeps hsound⟩
  cases last with
  | apply _ stray existing _ rest _ others running answers =>
      cases op with
      | storeSave experiment =>
          intro hstored experimentId hkey old hold
          obtain ⟨hstatus, hnamed, -⟩ := hsound.apply_save running
          obtain rfl : experimentId = experiment.id := Json.str.inj (hkey.symm.trans hnamed)
          by_contra hterminal
          obtain ⟨new, hnew, houtcome⟩ := hkeeps _ old hold (by simpa using hterminal)
          have hsave : records.store.after (.storeSave experiment) answer =
              records.store.save experiment := if_pos hstored
          change (records.store.after (.storeSave experiment) answer).get _ = some new at hnew
          rw [hsave, InMemoryExperimentStore.get_save_self, Option.some_inj] at hnew
          rw [hwaiting, Option.some_inj] at hstatus
          have hreopened : ExperimentStatus.waitingForCalibration = old.status := by
            rw [hstatus, hnew]
            exact congrArg Prod.fst houtcome
          exact hterminal (hreopened ▸ rfl)
      | _ => trivial

-- From any reachable records, a terminal record stays as it is along every run whose steps spare
-- the terminal records. A waiting notice keeps them only if it does spare them.
theorem terminal_records_absorbing (records : Records) (hreachable : records.Reachable) :
    (∀ labels later, Run SparingStep records labels later → records.store.Keeps later.store) ∧
    ∀ resultMsg op answer next, Step records (.apply resultMsg op answer) next →
      recognised resultMsg.status = some .waitingForCalibration →
      (records.store.Keeps next.store ↔ records.Spares (.apply resultMsg op answer)) :=
  ⟨fun _ _ run => (keeps_of_run run hreachable.sound).2,
    fun _ _ _ _ last hwaiting => last.keeps_waiting_iff hreachable.sound hwaiting⟩

section example_run

def vqeRequest : ExperimentRequest :=
  .vqe { molecule_known := by decide, shots_bounds := by decide, maxIterations_bounds := by decide }

def resultOf (experimentId status : String) : ExperimentResultMessage :=
  { experimentId := .str experimentId, status := .str status }

def refused : Outcome := .raised (Exc.runtimeError "connection refused") false

def queuedRecord (experimentId : String) (submittedAt : DateTime) : ExperimentResponse :=
  { id := experimentId, algorithm := vqeRequest.algorithm, status := .queued,
    submittedAt := submittedAt, parameters := vqeRequest.modelDump }

-- e1 has been submitted, and a worker has completed it.
def completedRecords : Records :=
  { store := ((∅ : InMemoryExperimentStore).save (queuedRecord "e1" 0)).save
      { queuedRecord "e1" 0 with status := .completed, completedAt := some 1 },
    issued := ["e1"] }

theorem completedRecords_reachable : completedRecords.Reachable := by
  have hsubmit : Run Step {} _ _ := .single (.submit {} vqeRequest)
  have hid : Run Step {} _ _ :=
    hsubmit.step (.perform _ _ .uuid4 _ "e1" 0 rfl List.not_mem_nil)
  have hnow : Run Step {} _ _ := hid.step (.perform _ _ .utcnow _ (0 : Int) 0 rfl trivial)
  have hsave : Run Step {} _ _ :=
    hnow.step (.perform _ _ (.storeSave _) _ Outcome.returned 0 rfl trivial)
  have hpublish : Run Step {} _ _ :=
    hsave.step (.perform _ _ (.publishTask _ _) _ Outcome.returned 0 rfl trivial)
  have hrespond : Run Step {} _ _ := hpublish.step (.respond _ _ _ 0 rfl)
  have hreceive : Run Step {} _ _ := hrespond.step (.receive _ (resultOf "e1" "completed") false)
  have hread : Run Step {} _ _ := hreceive.step
    (.apply _ _ _ _ (.storeGet (.str "e1")) _ (.ok (some (queuedRecord "e1" 0))) 0 rfl (.inl rfl))
  have hclock : Run Step {} _ _ := hread.step (.apply _ _ _ _ .utcnow _ (1 : Int) 0 rfl trivial)
  have hupdate : Run Step {} _ _ :=
    hclock.step (.apply _ _ _ _ (.storeSave _) _ Outcome.returned 0 rfl trivial)
  exact ⟨_, hupdate.step (.applied _ _ _ _ _ 0 rfl)⟩

-- Between the two saves of the call for e2, whose task is refused by the broker, a waiting
-- notice for e2 is read and saved. A waiting notice for e1 then reopens it.
theorem terminal_records_absorbing_interleaved : ∃ labels later,
    Run SparingStep completedRecords labels later ∧
    (later.store.get "e2").map (fun experiment => experiment.status) = some .failed ∧
    completedRecords.store.Keeps later.store ∧
    ∃ before next, Run Step completedRecords
        [.receive (resultOf "e1" "waiting_for_calibration"),
          .apply (resultOf "e1" "waiting_for_calibration") (.storeGet (.str "e1"))
            (completedRecords.store.lookup (.str "e1"))] before ∧
      Step before (.apply (resultOf "e1" "waiting_for_calibration") (.storeSave
        { queuedRecord "e1" 0 with status := .waitingForCalibration }) Outcome.returned) next ∧
      ¬before.store.Keeps next.store := by
  have hsubmit : Run SparingStep completedRecords _ _ :=
    .single ⟨.submit completedRecords vqeRequest, trivial⟩
  have hid : Run SparingStep completedRecords _ _ :=
    hsubmit.step ⟨.perform _ _ .uuid4 _ "e2" 0 rfl (show "e2" ∉ ["e1"] by decide), trivial⟩
  have hnow : Run SparingStep completedRecords _ _ :=
    hid.step ⟨.perform _ _ .utcnow _ (2 : Int) 0 rfl trivial, trivial⟩
  have hsave : Run SparingStep completedRecords _ _ :=
    hnow.step ⟨.perform _ _ (.storeSave _) _ Outcome.returned 0 rfl trivial, nofun⟩
  have hreceive : Run SparingStep completedRecords _ _ :=
    hsave.step ⟨.receive _ (resultOf "e2" "waiting_for_calibration") false, trivial⟩
  have hread : Run SparingStep completedRecords _ _ := hreceive.step
    ⟨.apply _ _ _ _ (.storeGet (.str "e2")) _ (.ok (some (queuedRecord "e2" 2))) 0 rfl (.inl rfl),
      trivial⟩
  have hrefused : Run SparingStep completedRecords _ _ :=
    hread.step ⟨.perform _ _ (.publishTask _ _) _ refused 0 rfl trivial, trivial⟩
  have hnotice : Run SparingStep completedRecords _ _ :=
    hrefused.step ⟨.apply _ _ _ _ (.storeSave _) _ Outcome.returned 0 rfl trivial, by
      rintro - experimentId hkey old hold
      obtain rfl := Json.str.inj hkey
      obtain rfl := Option.some.inj hold
      rfl⟩
  have hlater : Run SparingStep completedRecords _ _ :=
    hnotice.step ⟨.perform _ _ .utcnow _ (3 : Int) 0 rfl trivial, trivial⟩
  have hfailed : Run SparingStep completedRecords _ _ :=
    hlater.step ⟨.perform _ _ (.storeSave _) _ Outcome.returned 0 rfl trivial, by
      rintro - - old hold
      obtain rfl := Option.some.inj hold
      rfl⟩
  have hlate : Run Step completedRecords _ _ :=
    .single (.receive completedRecords (resultOf "e1" "waiting_for_calibration") false)
  have hfound : Run Step completedRecords _ _ := hlate.step
    (.apply _ _ _ _ (.storeGet (.str "e1")) _ (.ok (some _)) 0 rfl (.inl rfl))
  obtain ⟨before, next, hrun, hlast, hstore⟩ : ∃ before next, Run Step completedRecords _ before ∧
      Step before (.apply (resultOf "e1" "waiting_for_calibration") (.storeSave
        { queuedRecord "e1" 0 with status := .waitingForCalibration }) Outcome.returned) next ∧
      before.store = completedRecords.store :=
    ⟨_, _, hfound, .apply _ _ false _ (.storeSave _) _ Outcome.returned 0 rfl trivial, rfl⟩
  have hiff := (terminal_records_absorbing before (completedRecords_reachable.append hrun)).2 _ _ _
    _ hlast rfl
  refine ⟨_, _, hfailed, rfl,
    (terminal_records_absorbing completedRecords completedRecords_reachable).1 _ _ hfailed,
    before, next, hrun, hlast, mt hiff.mp fun hspares => ?_⟩
  have hopen : before.Unfinished "e1" := hspares rfl "e1" rfl
  rw [Unfinished, hstore] at hopen
  cases hopen _ rfl

-- A late waiting notice reopens a completed record and clears its completion time.
theorem terminal_records_not_absorbing :
    ¬ ∀ records labels later, Reachable records → Run Step records labels later →
      records.store.Keeps later.store := by
  intro habsorbing
  have hlate : Run Step completedRecords _ _ :=
    .single (.receive completedRecords (resultOf "e1" "waiting_for_calibration") false)
  have hfound : Run Step completedRecords _ _ := hlate.step
    (.apply _ _ _ _ (.storeGet (.str "e1")) _ (.ok (some _)) 0 rfl (.inl rfl))
  have hreopened : Run Step completedRecords _ _ :=
    hfound.step (.apply _ _ _ _ (.storeSave _) _ Outcome.returned 0 rfl trivial)
  obtain ⟨new, hnew, houtcome⟩ :=
    habsorbing _ _ _ completedRecords_reachable hreopened "e1" _ rfl rfl
  obtain rfl := Option.some.inj hnew
  have hstatus : ExperimentStatus.waitingForCalibration = .completed := congrArg Prod.fst houtcome
  cases hstatus

end example_run

end Records

end QuantumPlatform.Api
