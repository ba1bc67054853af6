import QuantumPlatform.Api.Consumer

namespace QuantumPlatform.Api

open Process Python

theorem statusByMessage_error (status : Json) (exc : Exc)
    (hraised : statusByMessage status = .error exc) : status.hashable = false := by
  unfold statusByMessage at hraised
  split at hraised
  · split at hraised
    · simp at hraised
    · split at hraised
      · simp at hraised
      · split at hraised <;> simp at hraised
  · simpa using ‹¬status.hashable = true›

theorem statusByMessage_hashable (status : Json) (found : Option ExperimentStatus)
    (hfound : statusByMessage status = .ok found) : status.hashable = true := by
  unfold statusByMessage at hfound
  by_cases hh : status.hashable = true
  · exact hh
  · rw [if_neg hh] at hfound
    simp at hfound

namespace World

-- What one message leaves behind when the store, the clock and the topic work.
def consume (world : World) (body : Body) : Except Exc Unit × World :=
  match ExperimentResultMessage.fromJson body with
  | .error exc => (.error exc, world)
  | .ok resultMsg =>
      match world.store.lookup resultMsg.experimentId with
      | .error exc => (.error exc, world)
      | .ok none => (.ok (), world)
      | .ok (some existing) =>
          match statusByMessage resultMsg.status with
          | .error exc => (.error exc, world)
          | .ok none => (.ok (), world)
          | .ok (some status) =>
              let updated := existing.update status resultMsg world.now
              (.ok (), { world with
                store := world.store.save updated,
                completed := if resultMsg.terminal then world.completed ++ [updated]
                  else world.completed })

theorem exec_consumeMessage (world : World) (body : Body) :
    (consumeMessage body).run.exec World.answer world = world.consume body := by
  unfold consume consumeMessage
  rw [Py.exec_bind, Py.exec_ofExcept]
  rcases ExperimentResultMessage.fromJson body with exc | resultMsg
  · rfl
  · simp only
    rw [Py.exec_bind, exec_applyResultMessage]
    rcases world.store.lookup resultMsg.experimentId with exc | _ | existing
    · rfl
    · rfl
    · simp only
      rcases statusByMessage resultMsg.status with exc | _ | status
      · rfl
      · rfl
      · cases resultMsg.terminal
        · simp only [Bool.false_eq_true, if_false]
          rfl
        · simp only [if_true]
          rfl

theorem exec_process (world : World) (body : Body) :
    (process (consumeMessage body)).run.exec World.answer world = world.consume body := by
  have hbody := exec_consumeMessage world body
  unfold process
  change Program.exec _ (Program.bind _ _) _ = _
  rw [Program.exec_bind, hbody]
  rcases world.consume body with ⟨exc | value, later⟩ <;> rfl

theorem consumeResults_cons (world : World) (body : Body) (now : DateTime)
    (rest : List (Body × DateTime)) :
    world.consumeResults ((body, now) :: rest) =
      match (world.clockAt now).consume body with
      | (.ok _, later) => later.consumeResults rest
      | (.error exc, later) => (.error exc, later) := by
  rw [← exec_process]
  rfl

end World

namespace InMemoryExperimentStore

-- The two stores have records for the same experiments.
def SameIds (store later : InMemoryExperimentStore) : Prop :=
  ∀ experimentId, (later.get experimentId).isSome = (store.get experimentId).isSome

variable {store later : InMemoryExperimentStore}

theorem sameIds_save (store : InMemoryExperimentStore) (experimentId : String)
    (existing experiment : ExperimentResponse) (hget : store.get experimentId = some existing)
    (hid : experiment.id = experimentId) : store.SameIds (store.save experiment) := by
  intro other
  rw [get_save]
  split_ifs with hother
  · rw [hother, hid, hget]
    rfl
  · rfl

-- A lookup goes the same way in both: the same answer, or a record from each.
theorem SameIds.lookup (hsame : store.SameIds later) (key : Json) :
    later.lookup key = store.lookup key ∨
      ∃ first second, later.lookup key = .ok (some first) ∧
        store.lookup key = .ok (some second) := by
  cases key with
  | str experimentId =>
      have hids := hsame experimentId
      have hstr : ∀ store : InMemoryExperimentStore,
        store.lookup (.str experimentId) = .ok (store.get experimentId) := fun _ => rfl
      rw [hstr, hstr]
      cases hold : store.get experimentId with
      | none =>
          rw [hold, Option.isSome_none, Option.isSome_eq_false_iff, Option.isNone_iff_eq_none]
            at hids
          rw [hids]
          exact .inl rfl
      | some found =>
          rw [hold, Option.isSome_some, Option.isSome_iff_exists] at hids
          obtain ⟨experiment, hnew⟩ := hids
          rw [hnew]
          exact .inr ⟨experiment, found, rfl, rfl⟩
  | _ => exact .inl rfl

theorem SameIds.wellFormed_eq (hsame : store.SameIds later) (body : Body) :
    later.wellFormed body = store.wellFormed body := by
  unfold wellFormed
  rcases ExperimentResultMessage.fromJson body with exc | resultMsg
  · rfl
  · simp only
    rcases hsame.lookup resultMsg.experimentId with hlookup | ⟨first, second, hnew, hold⟩
    · rw [hlookup]
    · rw [hnew, hold]

theorem SameIds.raises_eq (hsame : store.SameIds later) (body : Body) :
    later.raises body = store.raises body := by
  unfold raises
  rcases ExperimentResultMessage.fromJson body with exc | resultMsg
  · rfl
  · simp only
    rcases hsame.lookup resultMsg.experimentId with hlookup | ⟨first, second, hnew, hold⟩
    · rw [hlookup]
    · rw [hnew, hold]

end InMemoryExperimentStore

namespace World

theorem consume_isOk (world : World) (body : Body) :
    (world.consume body).1.isOk = !world.store.raises body := by
  unfold consume InMemoryExperimentStore.raises
  rcases ExperimentResultMessage.fromJson body with exc | resultMsg
  · rfl
  · simp only
    rcases world.store.lookup resultMsg.experimentId with exc | _ | existing
    · rfl
    · rfl
    · simp only
      rcases h : statusByMessage resultMsg.status with exc | _ | status
      · simp only [statusByMessage_error _ exc h]
        rfl
      · simp only [statusByMessage_hashable _ none h]
        rfl
      · simp only [statusByMessage_hashable _ (some status) h]
        rfl

-- A message that neither raises nor is well formed is dropped without a trace.
theorem consume_ignored (world : World) (body : Body) (hraises : world.store.raises body = false)
    (hformed : world.store.wellFormed body = false) : world.consume body = (.ok (), world) := by
  unfold InMemoryExperimentStore.raises at hraises
  unfold InMemoryExperimentStore.wellFormed at hformed
  unfold consume
  rcases h : ExperimentResultMessage.fromJson body with exc | resultMsg
  · simp [h] at hraises
  · simp only [h] at hraises hformed
    rcases hl : world.store.lookup resultMsg.experimentId with exc | _ | existing
    · simp [hl] at hraises
    · simp only [hl]
    · simp only [hl, Bool.not_eq_false'] at hraises hformed
      rcases hs : statusByMessage resultMsg.status with exc | _ | status
      · rw [statusByMessage_error _ exc hs] at hraises
        simp at hraises
      · simp only [hl, hs]
      · rw [statusByMessage_ok _ _ hs] at hformed
        simp at hformed

theorem consume_sameIds (world : World) (body : Body) :
    world.store.SameIds (world.consume body).2.store := by
  unfold consume
  rcases ExperimentResultMessage.fromJson body with exc | resultMsg
  · exact fun _ => rfl
  · simp only
    rcases h : world.store.lookup resultMsg.experimentId with exc | _ | existing
    · exact fun _ => rfl
    · exact fun _ => rfl
    · simp only
      rcases statusByMessage resultMsg.status with exc | _ | status
      · exact fun _ => rfl
      · exact fun _ => rfl
      · obtain ⟨experimentId, _, hget⟩ :=
          (InMemoryExperimentStore.lookup_eq_some world.store _ existing).mp h
        exact InMemoryExperimentStore.sameIds_save world.store experimentId existing _ hget
          (world.store.keyed experimentId existing hget)

-- The loop starts every message by reading the clock anew.
theorem consumeResults_now (world : World) (now : DateTime) (messages : List (Body × DateTime)) :
    ((world.clockAt now).consumeResults messages).1 = (world.consumeResults messages).1 ∧
    ((world.clockAt now).consumeResults messages).2.store =
      (world.consumeResults messages).2.store ∧
    ((world.clockAt now).consumeResults messages).2.completed =
      (world.consumeResults messages).2.completed := by
  cases messages with
  | nil => exact ⟨rfl, rfl, rfl⟩
  | cons message rest =>
      rw [consumeResults_cons, consumeResults_cons]
      exact ⟨rfl, rfl, rfl⟩

theorem consumeResults_ok_iff (world : World) (messages : List (Body × DateTime)) :
    (world.consumeResults messages).1 = .ok () ↔
      ∀ message ∈ messages, world.store.raises message.1 = false := by
  induction messages generalizing world with
  | nil => simp [consumeResults]
  | cons message rest ih =>
      obtain ⟨body, now⟩ := message
      have hok := consume_isOk (world.clockAt now) body
      have hsame : world.store.SameIds _ := consume_sameIds (world.clockAt now) body
      rw [consumeResults_cons]
      rcases hc : (world.clockAt now).consume body with ⟨exc | value, later⟩
      · have hraises : world.store.raises body = true := by
          rw [hc] at hok
          simpa [clockAt, Except.isOk, Except.toBool] using hok
        simp [hraises]
      · have hraises : world.store.raises body = false := by
          rw [hc] at hok
          simpa [clockAt, Except.isOk, Except.toBool] using hok
        rw [hc] at hsame
        simp only [ih later, List.forall_mem_cons, hraises, true_and]
        refine forall₂_congr fun message _ => ?_
        rw [hsame.raises_eq message.1]

-- Leaving the ignored messages out changes nothing, if no message raises.
theorem consumeResults_filter (world : World) (messages : List (Body × DateTime))
    (hraises : ∀ message ∈ messages, world.store.raises message.1 = false) :
    (world.consumeResults messages).2.store =
      (world.consumeResults
        (messages.filter fun message => world.store.wellFormed message.1)).2.store ∧
    (world.consumeResults messages).2.completed =
      (world.consumeResults
        (messages.filter fun message => world.store.wellFormed message.1)).2.completed := by
  induction messages generalizing world with
  | nil => exact ⟨rfl, rfl⟩
  | cons message rest ih =>
      obtain ⟨body, now⟩ := message
      obtain ⟨hhead, hrest⟩ := List.forall_mem_cons.mp hraises
      by_cases hformed : world.store.wellFormed (body, now).1 = true
      · have hok := consume_isOk (world.clockAt now) body
        have hsame : world.store.SameIds _ := consume_sameIds (world.clockAt now) body
        rw [List.filter_cons, if_pos hformed, consumeResults_cons, consumeResults_cons]
        rcases hc : (world.clockAt now).consume body with ⟨exc | value, later⟩
        · exact ⟨rfl, rfl⟩
        · rw [hc] at hsame
          have hlater := ih later fun message hm => by rw [hsame.raises_eq, hrest message hm]
          simp only [hsame.wellFormed_eq] at hlater
          exact hlater
      · have hignored := consume_ignored (world.clockAt now) body hhead
          (by simpa [clockAt] using hformed)
        rw [List.filter_cons, if_neg hformed, consumeResults_cons, hignored]
        obtain ⟨-, hstore, hcompleted⟩ := consumeResults_now world now rest
        obtain ⟨hs, hc⟩ := ih world hrest
        exact ⟨hstore.trans hs, hcompleted.trans hc⟩

-- The consumer outlives a queue of messages exactly when none of them raises.
theorem survives_iff (world : World) (messages : List (Body × DateTime)) :
    world.Survives messages ↔ ∀ message ∈ messages, world.store.raises message.1 = false := by
  constructor
  · intro hsurvives
    exact (consumeResults_ok_iff world messages).mp hsurvives.1
  · intro hraises
    exact ⟨(consumeResults_ok_iff world messages).mpr hraises,
      consumeResults_filter world messages hraises⟩

-- One body that is not JSON ends the loop before the valid result behind it.
theorem not_survives : ¬ ∀ (world : World) (messages : List (Body × DateTime)),
    world.Survives messages := by
  intro hsurvives
  let queued : ExperimentResponse := ⟨"e1", .grover, .queued, 0, .null, none, .null, .null⟩
  let completed : ExperimentResultMessage := ⟨.str "e1", .str "completed", .obj [], .null⟩
  have hdead := hsurvives { store := (∅ : InMemoryExperimentStore).save queued, now := 0 }
    [(.raw [123], 1), (completed.toJson, 2)]
  have hraised : World.consumeResults
      { store := (∅ : InMemoryExperimentStore).save queued, now := 0 }
      [(.raw [123], 1), (completed.toJson, 2)] =
        (.error (Exc.valueError "Expecting value"),
          { store := (∅ : InMemoryExperimentStore).save queued, now := 1 }) := rfl
  rw [World.Survives, hraised] at hdead
  exact absurd hdead.1 (by simp)

end World

end QuantumPlatform.Api
