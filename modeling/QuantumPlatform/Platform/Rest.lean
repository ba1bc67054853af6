import QuantumPlatform.Broker.Reports
import QuantumPlatform.Broker.Rest
import QuantumPlatform.Platform.Exchange.Fulfilment
import QuantumPlatform.Platform.Theorems

namespace QuantumPlatform

open Process Python Orchestrator

namespace Platform

variable (settings : Settings) (externals : Externals)

-- A call of submit_experiment may still publish its task.
noncomputable def callRank (call : Call) : Rank :=
  .of (MAX_RETRIES.toNat + settings.calibrationMaxWaitAttempts.toNat + 1) 0 call.rest.height

noncomputable def ranks (platform : Platform) : Multiset Rank :=
  platform.calls.map (callRank settings) +
    Broker.ranks settings platform.consumed platform.broker

-- A new request comes in, or a worker is lost with a redelivered message.
def Label.Disturbs : Label → Prop
  | .submit _ => True
  | .broker label => label.Disturbs
  | _ => False

-- Nothing can happen until a new request comes in.
def Idle (platform : Platform) : Prop :=
  ∀ label next, Step settings externals platform label next →
    ∃ request, label = .submit request

-- Nobody has anything left to do.
structure Rested (platform : Platform) : Prop where
  calls : platform.calls = 0
  taskQueue : platform.broker.taskQueue = 0
  waitQueue : platform.broker.waitQueue = 0
  inFlight : platform.broker.inFlight = 0
  waiting : platform.waiting = []

variable {settings externals} {platform next : Platform} {label : Label} {labels : List Label}

-- What the broker keeps, and how far the results have been consumed.
structure Known (settings : Settings) (platform : Platform) : Prop where
  sound : platform.broker.Sound settings
  reported : platform.broker.Reported
  covered : ∀ origin body, platform.broker.published[origin]? = some body →
    platform.broker.Covered origin body
  consumed : platform.consumed ≤ platform.broker.results.length

theorem Known.broker_step (hknown : platform.Known settings) {label : Broker.Label}
    {later : Broker} (last : Broker.Step settings externals platform.broker label later) :
    Known settings { platform with broker := later } where
  sound := last.sound hknown.sound
  reported := last.reported hknown.sound hknown.reported
  covered := last.covered hknown.sound hknown.covered
  consumed := hknown.consumed.trans (last.results_length hknown.sound)

theorem Step.known (last : Step settings externals platform label next)
    (hknown : platform.Known settings) : next.Known settings := by
  cases last with
  | call opened op rest answer others running admits =>
      cases op with
      | publishTask queue body =>
          simp only [brokerAfter]
          split_ifs
          · obtain ⟨hsound, hreported, hcovered, hconsumed⟩ :=
              hknown.broker_step (.publish platform.broker body : Broker.Step settings externals _ _ _)
            exact ⟨hsound, hreported, hcovered, hconsumed⟩
          · exact ⟨hknown.sound, hknown.reported, hknown.covered, hknown.consumed⟩
      | _ => exact ⟨hknown.sound, hknown.reported, hknown.covered, hknown.consumed⟩
  | consume body resultMsg now waiting decoded =>
      obtain ⟨hbound, -⟩ := List.getElem?_eq_some_iff.mp waiting
      exact ⟨hknown.sound, hknown.reported, hknown.covered, hbound⟩
  | broker label later internal last => exact hknown.broker_step last
  | submit | respond => exact ⟨hknown.sound, hknown.reported, hknown.covered, hknown.consumed⟩

theorem known_empty (settings : Settings) : Platform.Known settings {} where
  sound := Broker.sound_empty settings
  reported := Broker.reported_empty
  covered origin body h := by simp at h
  consumed := le_refl 0

-- A task that is published is smaller than the call that publishes it.
theorem ranks_call {opened : Option String} {op : Api.Effect}
    {rest : op.Ans → Api.Submission} (answer : op.Ans) :
    ∃ smaller : Multiset Rank,
      (∀ other ∈ smaller, other < callRank settings ⟨opened, .call op rest⟩) ∧
      Broker.ranks settings platform.consumed (brokerAfter platform.broker op answer) =
        smaller + Broker.ranks settings platform.consumed platform.broker := by
  cases op with
  | publishTask queue body =>
      simp only [brokerAfter]
      split_ifs
      · refine ⟨{Copy.queuedRank settings
          ⟨{ body := body }, false, platform.broker.published.length⟩}, ?_, ?_⟩
        · intro other hmem
          rw [Multiset.mem_singleton.mp hmem]
          refine Rank.of_lt_left (Nat.lt_succ_of_le (le_of_eq ?_))
          change (MAX_RETRIES - 0).toNat + (settings.calibrationMaxWaitAttempts - 0).toNat = _
          rw [Int.sub_zero, Int.sub_zero]
        · exact Broker.ranks_task _ platform.broker.taskQueue
      · exact ⟨0, by simp, (zero_add _).symm⟩
  | _ => exact ⟨0, by simp, (zero_add _).symm⟩

theorem Step.lowers (last : Step settings externals platform label next)
    (hknown : platform.Known settings) (hquiet : ¬ label.Disturbs) :
    Relation.CutExpand (· < ·) (next.ranks settings) (platform.ranks settings) := by
  cases last with
  | submit request => exact absurd trivial hquiet
  | call opened op rest answer others running admits =>
      obtain ⟨smaller, hsmaller, hranks⟩ :=
        @ranks_call settings platform opened op rest answer
      have hbefore : platform.ranks settings = callRank settings ⟨opened, .call op rest⟩ ::ₘ
          (others.map (callRank settings) +
            Broker.ranks settings platform.consumed platform.broker) := by
        rw [ranks, running, Multiset.map_cons, Multiset.cons_add]
      refine @cutExpand_of_eq _ _ _ _ _
        (callRank settings ⟨submission.next opened op answer, rest answer⟩ ::ₘ smaller) _ ?_
        hbefore ?_
      · intro other hmem
        rcases Multiset.mem_cons.mp hmem with rfl | hadded
        · exact Rank.of_lt_height (@Program.height_next Api.sig _ op rest answer)
        · exact hsmaller other hadded
      · simp only [ranks, Multiset.map_cons, hranks, Multiset.cons_add]
        ac_rfl
  | respond opened result others running =>
      refine @cutExpand_of_eq _ _ _ _ _ 0 (callRank settings ⟨opened, .ret result⟩) (by simp) ?_
        (zero_add _).symm
      rw [ranks, running, Multiset.map_cons, Multiset.cons_add]
      rfl
  | consume body resultMsg now waiting decoded =>
      obtain ⟨hbound, -⟩ := List.getElem?_eq_some_iff.mp waiting
      have hlength : platform.broker.results.length - platform.consumed =
          platform.broker.results.length - (platform.consumed + 1) + 1 := by omega
      refine @cutExpand_of_eq _ _ _ _ _ 0 Rank.unread (by simp) ?_ (zero_add _).symm
      simp only [ranks, Broker.ranks, hlength, Multiset.replicate_succ, Multiset.add_cons]
  | broker label later internal last =>
      exact (Relation.cutExpand_add_left _).mpr (last.lowers hknown.sound hknown.consumed hquiet)

-- In an idle state nobody has anything left to do.
theorem Idle.rested (hidle : platform.Idle settings externals) (hknown : platform.Known settings) :
    platform.Rested where
  calls := by
    by_contra hcalls
    obtain ⟨⟨opened, rest⟩, hmem⟩ := Multiset.exists_mem_of_ne_zero hcalls
    obtain ⟨others, running⟩ := Multiset.exists_cons_of_mem hmem
    cases rest with
    | ret result =>
        obtain ⟨request, hlabel⟩ := hidle _ _ (.respond platform opened result others running)
        cases hlabel
    | call op rest =>
        have hanswer : ∃ answer, submission.admits opened op answer := by
          cases op with
          | uuid4 => exact ⟨"", trivial⟩
          | utcnow => exact ⟨(0 : Int), trivial⟩
          | storeGet key => exact ⟨.ok none, trivial⟩
          | storeSave experiment => exact ⟨Outcome.returned, rfl⟩
          | publishTask queue body => exact ⟨Outcome.returned, fun _ _ h => by cases h⟩
          | kafkaSend topic payload key => exact ⟨Outcome.returned, trivial⟩
          | ack => exact ⟨(), trivial⟩
          | reject => exact ⟨(), trivial⟩
        obtain ⟨answer, hadmits⟩ := hanswer
        obtain ⟨request, hlabel⟩ :=
          hidle _ _ (.call platform opened op rest answer others running hadmits)
        cases hlabel
  taskQueue := by
    by_contra hqueue
    obtain ⟨copy, hmem⟩ := Multiset.exists_mem_of_ne_zero hqueue
    obtain ⟨others, queued⟩ := Multiset.exists_cons_of_mem hmem
    obtain ⟨request, hlabel⟩ := hidle _ _
      (.broker platform _ _ (by simp) (.deliver platform.broker copy others 0 queued))
    cases hlabel
  waitQueue := by
    by_contra hqueue
    obtain ⟨copy, hmem⟩ := Multiset.exists_mem_of_ne_zero hqueue
    obtain ⟨others, waiting⟩ := Multiset.exists_cons_of_mem hmem
    obtain ⟨request, hlabel⟩ := hidle _ _
      (.broker platform _ _ (by simp) (.expire platform.broker copy others waiting))
    cases hlabel
  inFlight := by
    by_contra hheld
    obtain ⟨delivery, hmem⟩ := Multiset.exists_mem_of_ne_zero hheld
    obtain ⟨others, running⟩ := Multiset.exists_cons_of_mem hmem
    obtain ⟨request, hlabel⟩ := hidle _ _
      (.broker platform _ _ (by simp) (.crash platform.broker delivery others running))
    cases hlabel
  waiting := by
    by_contra hwaiting
    obtain ⟨body, rest, hdrop⟩ := List.exists_cons_of_ne_nil hwaiting
    have hnext : platform.broker.results[platform.consumed]? = some body := by
      rw [← List.head?_drop]
      exact congrArg List.head? hdrop
    obtain ⟨-, -, -, resultMessage, -, -, hencoded⟩ :=
      hknown.reported.results body (List.mem_of_getElem? hnext)
    have hdecoded : ExperimentResultMessage.fromJson body = .ok resultMessage := by
      rw [hencoded]
      exact ExperimentResultMessage.fromJson_toJson resultMessage
    obtain ⟨request, hlabel⟩ := hidle _ _ (.consume platform body resultMessage 0 hnext hdecoded)
    cases hlabel

theorem Rested.idle (hrested : platform.Rested) : platform.Idle settings externals := by
  intro label next last
  cases last with
  | submit request => exact ⟨request, rfl⟩
  | call opened op rest answer others running =>
      exact absurd (hrested.calls.symm.trans running) (Multiset.zero_ne_cons)
  | respond opened result others running =>
      exact absurd (hrested.calls.symm.trans running) (Multiset.zero_ne_cons)
  | consume body resultMsg now waiting decoded =>
      have hnone : platform.broker.results.length ≤ platform.consumed :=
        List.drop_eq_nil_iff.mp hrested.waiting
      rw [List.getElem?_eq_none hnone] at waiting
      cases waiting
  | broker label later internal last =>
      cases last with
      | publish body => exact absurd rfl (internal body)
      | deliver copy others fuel queued =>
          exact absurd (hrested.taskQueue.symm.trans queued) (Multiset.zero_ne_cons)
      | perform copy progress op next answer others running =>
          exact absurd (hrested.inFlight.symm.trans running) (Multiset.zero_ne_cons)
      | finish copy progress others running =>
          exact absurd (hrested.inFlight.symm.trans running) (Multiset.zero_ne_cons)
      | crash delivery others running =>
          exact absurd (hrested.inFlight.symm.trans running) (Multiset.zero_ne_cons)
      | expire copy others waiting =>
          exact absurd (hrested.waitQueue.symm.trans waiting) (Multiset.zero_ne_cons)

theorem run_known (run : Run (Step settings externals) {} labels platform) :
    platform.Known settings := by
  have hkeep : ∀ (state : Platform) (label : Label) (later : Platform), state.Known settings →
      True → Step settings externals state label later → later.Known settings :=
    fun _ _ _ hknown _ last => last.known hknown
  exact run.invariant hkeep (fun _ _ => trivial) (known_empty settings)

theorem Rested.not_pending (hrested : platform.Rested) (copy : Copy) :
    ¬ platform.broker.Pending copy := by
  intro hpending
  rcases hpending with hmem | hmem | ⟨delivery, hmem, -⟩
  · rw [hrested.taskQueue] at hmem
    exact Multiset.notMem_zero _ hmem
  · rw [hrested.waitQueue] at hmem
    exact Multiset.notMem_zero _ hmem
  · rw [hrested.inFlight] at hmem
    exact Multiset.notMem_zero _ hmem

-- Every task that was published has ended.
theorem Rested.ended (hrested : platform.Rested) (hknown : platform.Known settings) {origin : Nat}
    {body : Body} (hpublished : platform.broker.published[origin]? = some body) :
    (∃ letter ∈ platform.broker.deadLetters, letter.origin = origin ∧ letter.message.body = body) ∨
      platform.broker.Settled body := by
  rcases hknown.covered origin body hpublished with ⟨copy, hplace, horigin, hbody⟩ | hsettled
  · rcases hplace with hpending | hdead
    · exact absurd hpending (hrested.not_pending copy)
    · exact .inl ⟨copy, hdead, horigin, hbody⟩
  · exact .inr hsettled

-- No experiment that is accounted for is left without an end.
theorem Rested.closed (hrested : platform.Rested) (hsound : platform.Sound settings)
    {experimentId : String} {record : Api.ExperimentResponse}
    (hget : platform.store.get experimentId = some record) : record.status.terminal = true := by
  rcases hsound.flows experimentId with ⟨copy, -, hpending, -⟩ | ⟨before, resultMsg, rest, hends, -⟩ |
    ⟨-, hclosed | ⟨call, hmem, -⟩⟩
  · exact absurd hpending (hrested.not_pending copy)
  · have hwaiting := hends.symm.trans hrested.waiting
    simp at hwaiting
  · exact hclosed record hget
  · rw [hrested.calls] at hmem
    exact absurd hmem (Multiset.notMem_zero _)

-- However the steps are ordered, the platform only goes on for ever if requests keep coming in or
-- redelivered messages keep being lost. Where it stops, every task has ended, and every experiment
-- too if no well-formed task was delivered with its retries used up.
theorem run_rests (run : Run (Step settings externals) {} labels platform) :
    (∀ (states : Nat → Platform) (more : Nat → Label), states 0 = platform →
      Endless (Step settings externals) states more → ∀ n, ∃ m, n ≤ m ∧ (more m).Disturbs) ∧
    (platform.Idle settings externals → platform.Rested ∧
      (∀ origin body, platform.broker.published[origin]? = some body →
        (∃ letter ∈ platform.broker.deadLetters,
          letter.origin = origin ∧ letter.message.body = body) ∨ platform.broker.Settled body) ∧
      ((∀ label ∈ labels, label.Unspent) → ∀ experimentId record,
        platform.store.get experimentId = some record → record.status.terminal = true)) := by
  have hknown := run_known run
  refine ⟨?_, ?_⟩
  · rintro states more rfl hendless n
    have hranked : ∀ (state : Platform) (label : Label) (later : Platform), state.Known settings →
        ¬ label.Disturbs → Step settings externals state label later →
        Relation.CutExpand (· < ·) (later.ranks settings) (state.ranks settings) :=
      fun _ _ _ hstate hquiet last => last.lowers hstate hquiet
    obtain ⟨m, hle, hloud⟩ := hendless.disturbed
      (WellFounded.cutExpand (wellFounded_lt : WellFounded ((· < ·) : Rank → Rank → Prop)))
      (fun _ _ _ hstate last => last.known hstate) hranked hknown n
    exact ⟨m, hle, not_not.mp hloud⟩
  · intro hidle
    have hrested := hidle.rested hknown
    refine ⟨hrested, fun origin body hpublished => hrested.ended hknown hpublished, ?_⟩
    intro hunspent experimentId record hget
    have hkeep : ∀ (state : Platform) (label : Label) (later : Platform), state.Sound settings →
        label.Unspent → Step settings externals state label later → later.Sound settings :=
      fun _ _ _ hsound hlabel last => last.sound hsound hlabel
    exact hrested.closed (run.invariant hkeep hunspent (sound_empty settings)) hget

-- One request that nothing satisfies: the platform comes to rest, and its record is completed.
theorem run_rests_unsatisfiable : ∃ labels platform record,
    Run (Step {} Exchange.neverTrue) {} labels platform ∧
    platform.store.get "e1" = some record ∧ record.status = .completed ∧ platform.Rested ∧
    record.status.terminal = true := by
  let request : Api.ExperimentRequest := .satGrover
    { variableNames := ["x"], expression := "x & ~x", variableNames_bounds := by decide,
      shots_bounds := by decide }
  have hsubmit : Run (Step {} Exchange.neverTrue) {} _ _ := .single (.submit {} request)
  have hid := hsubmit.step (.call _ _ .uuid4 _ "e1" 0 rfl trivial)
  have hnow := hid.step (.call _ _ .utcnow _ (0 : Int) 0 rfl trivial)
  have hsave := hnow.step (.call _ _ (.storeSave _) _ Outcome.returned 0 rfl rfl)
  have hpublish := hsave.step (.call _ _ (.publishTask _ _) _ Outcome.returned 0 rfl
    fun _ _ h => by cases h)
  have hrespond := hpublish.step (.respond _ _ _ 0 rfl)
  have hdeliver := hrespond.step (.broker _ _ _ (by simp)
    (.deliver _ ⟨{ body := _ }, false, 0⟩ 0 0 rfl))
  have henter := hdeliver.step (.broker _ _ _ (by simp) (.perform _ _ _ .handleMessage _ () 0 rfl))
  have hreport := henter.step (.broker _ _ _ (by simp)
    (.perform _ _ _ (.publish _ _) _ Outcome.returned 0 rfl))
  have hack := hreport.step (.broker _ _ _ (by simp)
    (.perform _ _ _ .ack _ Outcome.returned 0 rfl))
  have hfinish := hack.step (.broker _ _ _ (by simp) (.finish _ _ _ 0 rfl))
  have hconsume := hfinish.step (.consume _ _ _ 1 rfl rfl)
  refine ⟨_, _, _, hconsume, rfl, rfl, ⟨rfl, rfl, rfl, rfl, rfl⟩, ?_⟩
  refine ((run_rests hconsume).2 (Rested.idle ⟨rfl, rfl, rfl, rfl, rfl⟩)).2.2 ?_ "e1" _ rfl
  intro label hlabel
  simp only [List.append_assoc, List.mem_append, List.mem_cons, List.not_mem_nil,
    or_false] at hlabel
  rcases hlabel with rfl | rfl | rfl | rfl | rfl | rfl | rfl | rfl | rfl | rfl | rfl | rfl
  case inr.inr.inr.inr.inr.inr.inl => exact fun h => by cases h
  all_goals trivial

end Platform

end QuantumPlatform
