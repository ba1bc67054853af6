import QuantumPlatform.Broker.Outcome.Stage

namespace QuantumPlatform

open Process Python Orchestrator

namespace Broker

variable {settings : Settings} {externals : Externals} {origin : Nat} {body : Body} {life : Life}
  {labels : List Label} {label : Label} {broker later : Broker}

section lived

variable (hlived : Lived settings externals labels broker)
  (last : Step settings externals broker label later)

include hlived last

theorem Lived.step_origins : ∀ copy, later.Has copy → copy.origin < later.published.length := by
  have hgrown : broker.published.length ≤ later.published.length := by
    rcases last.published with hsame | ⟨added, -, hadded⟩
    · rw [hsame]
    · rw [hadded, List.length_append]
      exact Nat.le_add_right _ _
  intro copy hhas
  rcases last.has hlived.sound hhas with hold | ⟨added, rfl, rfl⟩ | ⟨parent, hparent, hderives⟩
  · exact lt_of_lt_of_le (hlived.origins copy hold) hgrown
  · cases last
    change broker.published.length < (broker.published ++ [added]).length
    rw [List.length_append]
    exact Nat.lt_succ_self _
  · rw [hderives.origin]
    exact lt_of_lt_of_le (hlived.origins parent hparent) hgrown

theorem Lived.step_fresh (hsmooth : label.Smooth) :
    ∀ copy, copy ∈ later.taskQueue ∨ copy ∈ later.waitQueue → copy.redelivered = false := by
  intro copy hmem
  cases last with
  | publish added =>
      rcases hmem with htask | hwait
      · rcases Multiset.mem_cons.mp htask with rfl | hold
        · rfl
        · exact hlived.fresh copy (.inl hold)
      · exact hlived.fresh copy (.inr hwait)
  | deliver delivered others fuel queued =>
      rcases hmem with htask | hwait
      · exact hlived.fresh copy (.inl (others_mem queued htask))
      · exact hlived.fresh copy (.inr hwait)
  | perform parent progress op next answer others running =>
      rcases broker.after_eq parent.origin op answer with hsame | ⟨queue, message, -, hstore⟩
      · rw [hsame] at hmem
        exact hlived.fresh copy hmem
      · rw [hstore] at hmem
        exact (mem_store hmem).elim (hlived.fresh copy) fun hnew => by rw [hnew]
  | finish finished progress others running => exact hlived.fresh copy hmem
  | crash delivery others running => exact hsmooth.elim
  | expire expired others waiting =>
      rcases hmem with htask | hwait
      · rcases Multiset.mem_cons.mp htask with rfl | hold
        · rfl
        · exact hlived.fresh copy (.inl hold)
      · exact hlived.fresh copy (.inr (others_mem waiting hwait))

theorem Lived.step_follows (hsmooth : label.Smooth) :
    ∀ delivery ∈ later.inFlight, ∃ phase, delivery.Follows settings externals phase := by
  intro delivery hmem
  cases last with
  | publish added => exact hlived.follows delivery hmem
  | deliver copy others fuel queued =>
      rcases Multiset.mem_cons.mp hmem with rfl | hold
      · refine ⟨.working, .start copy fuel (hlived.fresh copy (.inl ?_))⟩
        exact head_mem queued
      · exact hlived.follows delivery hold
  | perform copy progress op next answer others running =>
      rcases Multiset.mem_cons.mp hmem with rfl | hold
      · obtain ⟨phase, hfollows⟩ := hlived.follows ⟨copy, progress, .call op next⟩
          (head_mem running)
        exact ⟨_, hfollows.step hsmooth⟩
      · exact hlived.follows delivery (others_mem running hold)
  | finish copy progress others running =>
      exact hlived.follows delivery (others_mem running hmem)
  | crash delivery others running => exact hsmooth.elim
  | expire copy others waiting => exact hlived.follows delivery hmem

theorem Lived.step_unsent : ∀ origin queue, later.published.length ≤ origin →
    sent origin queue (labels ++ [label]) = [] := by
  intro origin queue hlater
  have hunborn : broker.published.length ≤ origin := by
    rcases last.published with hsame | ⟨added, -, hadded⟩
    · rwa [hsame] at hlater
    · rw [hadded, List.length_append] at hlater
      exact le_trans (Nat.le_add_right _ _) hlater
  rw [sent_append, hlived.unsent origin queue hunborn, List.nil_append]
  cases last with
  | perform copy progress op next answer others running =>
      have hborn : copy.origin < broker.published.length :=
        hlived.origins copy (has_inFlight running)
      exact sends_of_ne (Nat.ne_of_lt (lt_of_lt_of_le hborn hunborn)) queue
  | _ => rfl

-- A task begins its life in the task queue.
theorem Lived.born (added : Body) (hlabel : label = .publish added) :
    Stage settings externals broker.published.length added (.queued []) (labels ++ [label])
      later := by
  have hnone : ∀ copy, broker.Has copy → copy.origin ≠ broker.published.length :=
    fun copy hhas => Nat.ne_of_lt (hlived.origins copy hhas)
  have hunsent : ∀ queue, sent broker.published.length queue (labels ++ [label]) = [] := by
    intro queue
    rw [sent_append, hlived.unsent _ queue (le_refl _), hlabel]
    rfl
  subst hlabel
  cases last
  have hlive : broker.live broker.published.length = 0 := by
    refine live_eq_zero.mpr fun copy hmem => hnone copy ?_
    rcases hmem with htask | hwait
    · exact .inl htask
    · exact .inr (.inl hwait)
  have hone : (broker.publish added).live broker.published.length = 1 := by
    unfold Broker.live Broker.publish at *
    simp only
    rw [Multiset.countP_cons, if_pos rfl]
    omega
  refine ⟨.refl, hone, ?_, ?_, ?_, ?_, ?_, ?_⟩
  · refine holding_eq_zero.mpr fun delivery hmem hsame => absurd hsame (hnone _ ?_)
    exact .inr (.inr (.inr ⟨delivery, hmem, rfl⟩))
  · rw [hunsent]
    rfl
  · rw [hunsent]
    rfl
  · rw [hunsent]
    rfl
  · intro copy hmem hsame
    rcases hmem with htask | hwait
    · rcases Multiset.mem_cons.mp htask with rfl | hold
      · exact ⟨rfl, [], rfl, rfl⟩
      · exact absurd hsame (hnone copy (.inl hold))
    · exact absurd hsame (hnone copy (.inr (.inl hwait)))
  · intro delivery hmem hsame
    exact absurd hsame (hnone _ (.inr (.inr (.inr ⟨delivery, hmem, rfl⟩))))

theorem Lived.step_lives (hsmooth : label.Smooth) :
    ∀ origin body, later.published[origin]? = some body →
      ∃ life, Stage settings externals origin body life (labels ++ [label]) later := by
  intro origin body hbody
  have hborn : broker.published[origin]? = some body ∨
      label = .publish body ∧ origin = broker.published.length := by
    rcases last.published with hsame | ⟨added, hlabel, hadded⟩
    · exact .inl (by rwa [hsame] at hbody)
    · rw [hadded, List.getElem?_append] at hbody
      split_ifs at hbody with hlt
      · exact .inl hbody
      · obtain ⟨hindex, rfl⟩ := List.getElem?_eq_some_iff.mp hbody
        simp only [List.length_singleton] at hindex
        refine .inr ⟨?_, by omega⟩
        rw [hlabel]
        simp
  rcases hborn with hold | ⟨hlabel, rfl⟩
  · obtain ⟨life, hstage⟩ := hlived.lives origin body hold
    cases last with
    | publish added =>
        exact ⟨life, hstage.publish (List.getElem?_eq_some_iff.mp hold).1 added⟩
    | deliver copy others fuel queued =>
        refine hstage.deliver fuel queued (hlived.fresh copy (.inl ?_))
        exact head_mem queued
    | perform copy progress op next answer others running =>
        refine hstage.perform running (hlived.follows _ ?_) hsmooth
        exact head_mem running
    | finish copy progress others running =>
        have hsound := hlived.sound.delivery running
        exact ⟨life, hstage.finish running (hsound.handed hsound.finished)⟩
    | crash delivery others running => exact hsmooth.elim
    | expire copy others waiting => exact ⟨life, hstage.expire waiting⟩
  · exact ⟨.queued [], hlived.born last body hlabel⟩

theorem Lived.step (hsmooth : label.Smooth) :
    Lived settings externals (labels ++ [label]) later where
  sound := last.sound hlived.sound
  origins := hlived.step_origins last
  fresh := hlived.step_fresh last hsmooth
  follows := hlived.step_follows last hsmooth
  unsent := hlived.step_unsent last
  lives := hlived.step_lives last hsmooth

end lived

theorem lived_empty (settings : Settings) (externals : Externals) :
    Lived settings externals [] {} where
  sound := sound_empty settings
  origins copy hhas := absurd hhas (not_has_empty copy)
  fresh copy hmem := by
    rcases hmem with htask | hwait
    · exact absurd htask (Multiset.notMem_zero _)
    · exact absurd hwait (Multiset.notMem_zero _)
  follows delivery hmem := absurd hmem (Multiset.notMem_zero _)
  unsent _ _ _ := rfl
  lives _ _ hbody := by cases hbody

theorem run_lived (run : Run (Step settings externals) {} labels broker)
    (hsmooth : ∀ label ∈ labels, label.Smooth) : Lived settings externals labels broker := by
  induction run with
  | start => exact lived_empty settings externals
  | @step labels _ _ label _ last ih =>
      have hlived := ih fun other hmem => hsmooth other (List.mem_append_left _ hmem)
      exact hlived.step last (hsmooth label (List.mem_append_right _ (List.mem_singleton_self _)))

section outcome

variable (hstage : Stage settings externals origin body life labels broker)

include hstage

-- What has not been handed over is at a worker.
theorem Stage.idle (hidle : broker.Idle origin) : life.held = 0 := by
  rw [← hstage.held]
  exact holding_eq_zero.mpr fun delivery hmem hsame => absurd hsame (hidle delivery hmem)

theorem Stage.discards {exc : Exc} (hunparsed : ExperimentTask.fromJson body = .error exc) :
    Discards origin body labels broker := by
  have hsane := hstage.reachable.sane
  have hone := life.live_add_held
  have hnotices : life.notices = [] := by
    refine List.eq_nil_iff_forall_not_mem.mpr fun notice hmem => ?_
    obtain ⟨task, hparsed, -⟩ := hsane.notices notice hmem
    rw [hunparsed] at hparsed
    cases hparsed
  have hfinals : life.finals = [] := by
    refine List.eq_nil_iff_forall_not_mem.mpr fun final hmem => ?_
    obtain ⟨task, hparsed, -⟩ := hsane.finals final hmem
    rw [hunparsed] at hparsed
    cases hparsed
  refine ⟨?_, ?_, fun letter hmem => ?_, fun hidle => ?_⟩
  · rw [hstage.results, hnotices, hfinals]
    rfl
  · rw [hstage.letters]
    omega
  · rw [hstage.letters] at hmem
    exact (hsane.letters letter hmem).1
  · rw [hstage.letters, hstage.live]
    rw [hstage.idle hidle, hfinals, List.length_nil] at hone
    exact hone

theorem Stage.settles {task : ExperimentTask} (hparsed : ExperimentTask.fromJson body = .ok task) :
    Settles origin settings task labels broker life.notices.length life.finals := by
  have hsane := hstage.reachable.sane
  have hone := life.live_add_held
  have hnotices : life.notices = List.replicate life.notices.length (waitingResult task) := by
    refine List.eq_replicate_iff.mpr ⟨rfl, fun notice hmem => ?_⟩
    obtain ⟨other, hother, hnotice⟩ := hsane.notices notice hmem
    obtain rfl := Except.ok.inj (hparsed.symm.trans hother)
    exact hnotice
  have hletters : life.letters = [] := by
    refine List.eq_nil_iff_forall_not_mem.mpr fun letter hmem => ?_
    obtain ⟨-, exc, hunparsed⟩ := hsane.letters letter hmem
    rw [hparsed] at hunparsed
    cases hunparsed
  refine ⟨?_, hsane.bounded, ?_, ⟨by omega, fun final hmem => ?_⟩, ?_, fun hidle => ⟨?_, ?_⟩⟩
  · rw [← hnotices]
    exact hstage.results
  · rw [hstage.waits]
    exact life.waits_le
  · obtain ⟨other, hother, hreports, hterminal⟩ := hsane.finals final hmem
    obtain rfl := Except.ok.inj (hparsed.symm.trans hother)
    exact ⟨hreports, hterminal⟩
  · rw [hstage.letters, hletters]
  · rw [hstage.waits]
    exact Life.waits_of_not_held (hstage.idle hidle)
  · rw [hstage.live]
    rw [hstage.idle hidle, hletters, List.length_nil] at hone
    exact hone

end outcome

-- Without crashes and failures every delivery acknowledges its message once, at
-- the end, and every published body has its one outcome.
theorem run_settles (run : Run (Step settings externals) {} labels broker)
    (hsmooth : ∀ label ∈ labels, label.Smooth) (hcontained : broker.Contained) :
    (∀ delivery ∈ broker.inFlight, ∃ fuel events,
      delivery.Acknowledged settings externals fuel events) ∧
    ∀ origin body, broker.published[origin]? = some body →
      (∀ exc, ExperimentTask.fromJson body = .error exc → Discards origin body labels broker) ∧
      ∀ task, ExperimentTask.fromJson body = .ok task → ∃ notices finals,
        Settles origin settings task labels broker notices finals := by
  have hlived := run_lived run hsmooth
  refine ⟨fun delivery hmem => ?_, fun origin body hbody => ?_⟩
  · obtain ⟨phase, hfollows⟩ := hlived.follows delivery hmem
    exact hfollows.acknowledged (hcontained delivery hmem)
  · obtain ⟨life, hstage⟩ := hlived.lives origin body hbody
    exact ⟨fun exc hunparsed => hstage.discards hunparsed,
      fun task hparsed => ⟨_, _, hstage.settles hparsed⟩⟩

-- A task whose backend has no snapshot waits, after one notice; a body that is
-- no task has just been acknowledged.
theorem run_settles_waiting : ∃ labels broker,
    Run (Step {} default) {} labels broker ∧
    broker.waitQueue.card = 1 ∧ broker.deadLetters.card = 1 ∧ broker.inFlight.card = 1 ∧
    (∀ delivery ∈ broker.inFlight, ∃ fuel events,
      delivery.Acknowledged {} default fuel events) ∧
    (∃ notices finals,
      Settles 0 {} ⟨.str "e1", .str "vqe", .obj []⟩ labels broker notices finals) ∧
    Discards 1 (.json .null) labels broker := by
  have hpublished : Run (Step {} default) {} _ _ :=
    .single (.publish {} (ExperimentTask.toJson ⟨.str "e1", .str "vqe", .obj []⟩))
  have hdelivered := hpublished.step (.deliver _ ⟨{ body := _ }, false, 0⟩ 0 0 rfl)
  have hentered := hdelivered.step (.perform _ _ _ .handleMessage _ () 0 rfl)
  have hread := hentered.step (.perform _ _ _ (.calibrationGet _) _ (.ok none) 0 rfl)
  have hrequested := hread.step (.perform _ _ _ .triggerSet _ () 0 rfl)
  have hnoticed := hrequested.step (.perform _ _ _ (.publish _ _) _ Outcome.returned 0 rfl)
  have hcopied := hnoticed.step (.perform _ _ _ (.publish _ _) _ Outcome.returned 0 rfl)
  have hacked := hcopied.step (.perform _ _ _ .ack _ Outcome.returned 0 rfl)
  have hfinished := hacked.step (.finish _ _ _ 0 rfl)
  have hmalformed := hfinished.step (.publish _ (.json .null))
  have htaken := hmalformed.step (.deliver _ ⟨{ body := .json .null }, false, 1⟩ 0 0 rfl)
  have hopened := htaken.step (.perform _ _ _ .handleMessage _ () 0 rfl)
  have hdeclared := hopened.step (.perform _ _ _ (.declareQueue _) _ Outcome.returned 0 rfl)
  have hletter := hdeclared.step (.perform _ _ _ (.publish _ _) _ Outcome.returned 0 rfl)
  have hended := hletter.step (.perform _ _ _ .ack _ Outcome.returned 0 rfl)
  have hall := run_settles hended (by
    simp only [List.forall_mem_append, List.forall_mem_singleton, Label.Smooth, Succeeds,
      and_assoc]
    exact ⟨trivial, trivial, trivial, ⟨_, rfl⟩, trivial, rfl, rfl, rfl, trivial, trivial, trivial,
      trivial, rfl, rfl, rfl⟩)
    fun delivery hmem exc hrest => by
      rw [Multiset.mem_singleton.mp hmem] at hrest
      cases hrest
  exact ⟨_, _, hended, rfl, rfl, rfl, hall.1, (hall.2 0 _ rfl).2 _ rfl, (hall.2 1 _ rfl).1 _ rfl⟩

end Broker

end QuantumPlatform
