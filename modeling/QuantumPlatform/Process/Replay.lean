import Mathlib.Data.List.Range
import Mathlib.Data.Nat.Find
import Mathlib.Logic.Function.Basic
import Mathlib.Logic.Relation

namespace QuantumPlatform.Process

-- A table that is kept up to date from a log: each entry is written under its key, with
-- the time of the first write of that key. The consumer commits how far it has come and
-- starts again from there, so that a part of the log may be written more than once.
structure Replica (ε κ ν τ : Type) where
  log : List ε := []
  table : κ → Option (ν × τ) := fun _ => none
  stored : ℕ := 0
  committed : ℕ := 0
  written : List ℕ := []

namespace Replica

variable {ε κ ν τ : Type} [DecidableEq κ]

-- The value is replaced, the time of the first write stays.
def put (table : κ → Option (ν × τ)) (key : κ) (value : ν) (now : τ) : κ → Option (ν × τ) :=
  Function.update table key (some (value, ((table key).map Prod.snd).getD now))

def append (replica : Replica ε κ ν τ) (event : ε) : Replica ε κ ν τ :=
  { replica with log := replica.log ++ [event] }

def write (replica : Replica ε κ ν τ) (key : κ) (value : ν) (now : τ) : Replica ε κ ν τ :=
  { replica with
    table := put replica.table key value now
    stored := replica.stored + 1
    written := replica.written ++ [replica.stored] }

variable (entry : ε → Option (κ × ν))

inductive Step (replica : Replica ε κ ν τ) : Replica ε κ ν τ → Prop where
  | append (event : ε) : Step replica (replica.append event)
  | write {event : ε} {key : κ} {value : ν} (now : τ)
      (hlog : replica.log[replica.stored]? = some event)
      (hentry : entry event = some (key, value)) : Step replica (replica.write key value now)
  | commit {offset : ℕ} (hoffset : offset ≤ replica.stored) :
      Step replica { replica with committed := offset }
  | restart : Step replica { replica with stored := replica.committed }

-- An entry of the log with this key.
def Keyed (log : List ε) (key : κ) (i : ℕ) : Prop :=
  ∃ event value, log[i]? = some event ∧ entry event = some (key, value)

-- Some time is given to every offset. What is in the table has the time of the first
-- entry of its key, and a value that is at least as new as any entry already stored.
structure Sound (times : ℕ → τ) (replica : Replica ε κ ν τ) : Prop where
  committed_le : replica.committed ≤ replica.stored
  stored_le : replica.stored ≤ replica.log.length
  written : ∀ i < replica.stored, i ∈ replica.written
  decoded : ∀ i < replica.stored, ∃ key, Keyed entry replica.log key i
  fresh : ∀ i < replica.stored, ∀ key, Keyed entry replica.log key i →
    ∃ j, i ≤ j ∧ ∃ event value time, replica.log[j]? = some event ∧
      entry event = some (key, value) ∧ replica.table key = some (value, time)
  first : ∀ key value time, replica.table key = some (value, time) →
    ∃ i, Keyed entry replica.log key i ∧ (∀ j < i, ¬Keyed entry replica.log key j) ∧
      time = times i

variable {entry} {times : ℕ → τ} {replica : Replica ε κ ν τ}

section log

omit [DecidableEq κ]

theorem Keyed.lt {log : List ε} {key : κ} {i : ℕ} (h : Keyed entry log key i) :
    i < log.length := by
  obtain ⟨event, value, hlog, -⟩ := h
  exact (List.getElem?_eq_some_iff.mp hlog).1

theorem keyed_append {log : List ε} {event : ε} {key : κ} {i : ℕ} (hi : i < log.length) :
    Keyed entry (log ++ [event]) key i ↔ Keyed entry log key i := by
  unfold Keyed
  rw [List.getElem?_append_left hi]

-- An entry has one key.
theorem Keyed.unique {log : List ε} {first second : κ} {i : ℕ} (hfirst : Keyed entry log first i)
    (hsecond : Keyed entry log second i) : first = second := by
  obtain ⟨event, value, hlog, hentry⟩ := hfirst
  obtain ⟨other, more, hother, hmore⟩ := hsecond
  rw [hlog, Option.some_inj] at hother
  rw [← hother, hentry, Option.some_inj, Prod.mk.injEq] at hmore
  exact hmore.1

end log

omit [DecidableEq κ] in
theorem Sound.append (h : Sound entry times replica) (event : ε) :
    Sound entry times (replica.append event) := by
  have hlt : ∀ {i}, i < replica.stored → i < replica.log.length := fun hi =>
    hi.trans_le h.stored_le
  refine ⟨h.committed_le, ?_, h.written, ?_, ?_, ?_⟩
  · rw [Replica.append, List.length_append]
    exact h.stored_le.trans (Nat.le_add_right _ _)
  · intro i hi
    obtain ⟨key, hkeyed⟩ := h.decoded i hi
    exact ⟨key, (keyed_append (hlt hi)).mpr hkeyed⟩
  · intro i hi key hkeyed
    obtain ⟨j, hij, found, value, time, hlog, hfound, htable⟩ :=
      h.fresh i hi key ((keyed_append (hlt hi)).mp hkeyed)
    have hj : j < replica.log.length := (List.getElem?_eq_some_iff.mp hlog).1
    refine ⟨j, hij, found, value, time, ?_, hfound, htable⟩
    rw [Replica.append, List.getElem?_append_left hj, hlog]
  · intro key value time htable
    obtain ⟨i, hkeyed, hfirst, htime⟩ := h.first key value time htable
    refine ⟨i, (keyed_append hkeyed.lt).mpr hkeyed, fun j hj hother => ?_, htime⟩
    exact hfirst j hj ((keyed_append (hj.trans hkeyed.lt)).mp hother)

-- The times after a write: a key that was not there gets its time now.
def stamp (replica : Replica ε κ ν τ) (key : κ) (now : τ) (times : ℕ → τ) : ℕ → τ :=
  match replica.table key with
  | none => Function.update times replica.stored now
  | some _ => times

omit [DecidableEq κ] in
theorem stamp_of_none {key : κ} (now : τ) (times : ℕ → τ) (h : replica.table key = none) :
    replica.stamp key now times = Function.update times replica.stored now := by
  unfold stamp
  rw [h]

omit [DecidableEq κ] in
theorem stamp_of_some {key : κ} {row : ν × τ} (now : τ) (times : ℕ → τ)
    (h : replica.table key = some row) : replica.stamp key now times = times := by
  unfold stamp
  rw [h]

theorem put_self (table : κ → Option (ν × τ)) (key : κ) (value : ν) (now : τ) :
    put table key value now key = some (value, ((table key).map Prod.snd).getD now) :=
  Function.update_self _ _ _

theorem put_of_ne {table : κ → Option (ν × τ)} {key other : κ} (hne : other ≠ key) (value : ν)
    (now : τ) : put table key value now other = table other :=
  Function.update_of_ne hne _ _

theorem Sound.write (h : Sound entry times replica) {event : ε} {key : κ} {value : ν} (now : τ)
    (hlog : replica.log[replica.stored]? = some event)
    (hentry : entry event = some (key, value)) :
    Sound entry (replica.stamp key now times) (replica.write key value now) := by
  have hkeyed : Keyed entry replica.log key replica.stored := ⟨event, value, hlog, hentry⟩
  refine ⟨h.committed_le.trans (Nat.le_succ _), hkeyed.lt, ?_, ?_, ?_, ?_⟩
  · intro i hi
    by_cases hlast : i = replica.stored
    · exact List.mem_append_right _ (List.mem_singleton.mpr hlast)
    · have hlt : i < replica.stored := Nat.lt_of_le_of_ne (Nat.le_of_lt_succ hi) hlast
      exact List.mem_append_left _ (h.written i hlt)
  · intro i hi
    by_cases hlast : i = replica.stored
    · exact ⟨key, hlast ▸ hkeyed⟩
    · exact h.decoded i (Nat.lt_of_le_of_ne (Nat.le_of_lt_succ hi) hlast)
  · intro i hi other hother
    by_cases hsame : other = key
    · subst hsame
      exact ⟨replica.stored, Nat.le_of_lt_succ hi, event, value, _, hlog, hentry, put_self _ _ _ _⟩
    · have hlast : i ≠ replica.stored := fun hlast => hsame (hother.unique (hlast ▸ hkeyed))
      obtain ⟨j, hij, found, new, time, hfound, hnew, htable⟩ :=
        h.fresh i (Nat.lt_of_le_of_ne (Nat.le_of_lt_succ hi) hlast) other hother
      exact ⟨j, hij, found, new, time, hfound, hnew, (put_of_ne hsame _ _).trans htable⟩
  · intro other new time htable
    change put replica.table key value now other = some (new, time) at htable
    by_cases hsame : other = key
    · subst hsame
      rw [put_self, Option.some_inj, Prod.mk.injEq] at htable
      cases hold : replica.table other with
      | none =>
          have hnew : ∀ j < replica.stored, ¬Keyed entry replica.log other j := by
            intro j hj hbefore
            obtain ⟨_, _, _, _, _, _, _, hsome⟩ := h.fresh j hj other hbefore
            rw [hold] at hsome
            cases hsome
          refine ⟨replica.stored, hkeyed, hnew, ?_⟩
          rw [hold] at htable
          rw [← htable.2, stamp_of_none now times hold, Function.update_self]
          rfl
      | some row =>
          obtain ⟨i, hi, hfirst, htime⟩ := h.first other row.1 row.2 hold
          rw [hold] at htable
          rw [stamp_of_some now times hold]
          exact ⟨i, hi, hfirst, htable.2.symm.trans htime⟩
    · rw [put_of_ne hsame] at htable
      obtain ⟨i, hi, hfirst, htime⟩ := h.first other new time htable
      have hlast : i ≠ replica.stored := fun hlast => hsame (hi.unique (hlast ▸ hkeyed))
      refine ⟨i, hi, hfirst, ?_⟩
      cases hold : replica.table key with
      | none => rw [htime, stamp_of_none now times hold, Function.update_of_ne hlast]
      | some row => rw [htime, stamp_of_some now times hold]

omit [DecidableEq κ] in
theorem Sound.restart (h : Sound entry times replica) :
    Sound entry times { replica with stored := replica.committed } :=
  { h with
    committed_le := le_refl _
    stored_le := h.committed_le.trans h.stored_le
    written := fun i hi => h.written i (hi.trans_le h.committed_le)
    decoded := fun i hi => h.decoded i (hi.trans_le h.committed_le)
    fresh := fun i hi => h.fresh i (hi.trans_le h.committed_le) }

theorem Sound.step {next : Replica ε κ ν τ} (h : Sound entry times replica)
    (hstep : Step entry replica next) : ∃ later, Sound entry later next := by
  cases hstep with
  | append event => exact ⟨times, h.append event⟩
  | write now hlog hentry => exact ⟨_, h.write now hlog hentry⟩
  | commit hoffset => exact ⟨times, { h with committed_le := hoffset }⟩
  | restart => exact ⟨times, h.restart⟩

omit [DecidableEq κ] in
theorem Sound.empty (times : ℕ → τ) : Sound entry times ({} : Replica ε κ ν τ) :=
  ⟨le_refl _, le_refl _, fun i hi => absurd hi (Nat.not_lt_zero i),
    fun i hi => absurd hi (Nat.not_lt_zero i), fun i hi => absurd hi (Nat.not_lt_zero i),
    fun _ _ _ h => nomatch h⟩

theorem exists_sound [Nonempty τ]
    (h : Relation.ReflTransGen (Step entry) ({} : Replica ε κ ν τ) replica) :
    ∃ times, Sound entry times replica := by
  induction h with
  | refl => exact ⟨fun _ => Classical.arbitrary τ, Sound.empty _⟩
  | tail _ last ih =>
      obtain ⟨times, hsound⟩ := ih
      exact hsound.step last

-- Nothing is committed that was never written.
theorem covered [Nonempty τ]
    (h : Relation.ReflTransGen (Step entry) ({} : Replica ε κ ν τ) replica) :
    ∀ i < replica.committed, i ∈ replica.written := by
  obtain ⟨times, hsound⟩ := exists_sound h
  exact fun i hi => hsound.written i (hi.trans_le hsound.committed_le)

section replayed

omit [DecidableEq κ]

-- Once everything is stored, the last entry of a key is the one in the table.
theorem Sound.lookup (h : Sound entry times replica) (hstored : replica.stored = replica.log.length)
    {key : κ} {last : ℕ} (hlast : Keyed entry replica.log key last)
    (hnewest : ∀ j, Keyed entry replica.log key j → j ≤ last) :
    ∃ event value first, replica.log[last]? = some event ∧ entry event = some (key, value) ∧
      replica.table key = some (value, times first) ∧ Keyed entry replica.log key first ∧
      ∀ j < first, ¬Keyed entry replica.log key j := by
  obtain ⟨j, hij, event, value, time, hlog, hentry, htable⟩ :=
    h.fresh last (hstored ▸ hlast.lt) key hlast
  obtain rfl : j = last := le_antisymm (hnewest j ⟨event, value, hlog, hentry⟩) hij
  obtain ⟨first, hkeyed, hfirst, rfl⟩ := h.first key value time htable
  exact ⟨event, value, first, hlog, hentry, htable, hkeyed, hfirst⟩

open Classical in
-- The log and the times determine the table.
theorem Sound.unique {other : Replica ε κ ν τ} (h : Sound entry times replica)
    (hother : Sound entry times other) (hlog : other.log = replica.log)
    (hstored : replica.stored = replica.log.length) (hall : other.stored = replica.log.length) :
    other.table = replica.table := by
  funext key
  by_cases hkey : ∃ i, Keyed entry replica.log key i
  · obtain ⟨i, hi⟩ := hkey
    have hlast : Keyed entry replica.log key
        (Nat.findGreatest (Keyed entry replica.log key) replica.log.length) :=
      Nat.findGreatest_spec hi.lt.le hi
    have hnewest : ∀ j, Keyed entry replica.log key j →
        j ≤ Nat.findGreatest (Keyed entry replica.log key) replica.log.length :=
      fun j hj => Nat.le_findGreatest hj.lt.le hj
    obtain ⟨event, value, first, hevent, hentry, htable, hkeyed, hfirst⟩ :=
      h.lookup hstored hlast hnewest
    rw [← hlog] at hlast hnewest hall
    obtain ⟨found, new, earliest, hfound, hnew, hsame, hearliest, hbefore⟩ :=
      hother.lookup hall hlast hnewest
    rw [hlog] at hfound hearliest hbefore
    rw [hevent, Option.some_inj] at hfound
    rw [← hfound, hentry, Option.some_inj, Prod.mk.injEq] at hnew
    have hindex : earliest = first := by
      rcases lt_trichotomy earliest first with hlt | heq | hgt
      · exact absurd hearliest (hfirst earliest hlt)
      · exact heq
      · exact absurd hkeyed (hbefore first hgt)
    rw [hsame, htable, hindex, hnew.2]
  · have hnone : ∀ side : Replica ε κ ν τ, Sound entry times side → side.log = replica.log →
        side.table key = none := by
      intro side hside hsame
      rw [Option.eq_none_iff_forall_ne_some]
      rintro ⟨value, time⟩ htable
      obtain ⟨i, hi, -, -⟩ := hside.first key value time htable
      exact hkey ⟨i, hsame ▸ hi⟩
    rw [hnone other hother hlog, hnone replica h rfl]

end replayed

-- Every entry of the log written once, in order, at the given times.
def replay (entry : ε → Option (κ × ν)) (times : ℕ → τ) (log : List ε) : κ → Option (ν × τ) :=
  log.zipIdx.foldl (fun table item => match entry item.1 with
    | some (key, value) => put table key value (times item.2)
    | none => table) fun _ => none

theorem replay_append {log : List ε} {event : ε} {key : κ} {value : ν}
    (hentry : entry event = some (key, value)) :
    replay entry times (log ++ [event]) =
      put (replay entry times log) key value (times log.length) := by
  unfold replay
  rw [List.zipIdx_append, List.foldl_append]
  simp [hentry]

theorem sound_replay {log : List ε} (hdecoded : ∀ event ∈ log, (entry event).isSome = true) :
    Sound entry times ⟨log, replay entry times log, log.length, 0, List.range log.length⟩ := by
  induction log using List.reverseRecOn with
  | nil => exact Sound.empty times
  | append_singleton log event ih =>
      have hsound := ih fun other hmem => hdecoded other (List.mem_append_left _ hmem)
      obtain ⟨⟨key, value⟩, hentry⟩ :=
        Option.isSome_iff_exists.mp (hdecoded event (List.mem_append_right _ List.mem_cons_self))
      have hget : (log ++ [event])[log.length]? = some event := by simp
      have hwritten := (hsound.append event).write (times log.length) hget hentry
      have hstamp : ∀ r : Replica ε κ ν τ, r.stored = log.length →
          r.stamp key (times log.length) times = times := by
        intro r hr
        cases hold : r.table key with
        | none => rw [stamp_of_none _ _ hold, hr, Function.update_eq_self]
        | some row => rw [stamp_of_some _ _ hold]
      rw [hstamp _ rfl] at hwritten
      rw [replay_append hentry, List.length_append, List.length_singleton, List.range_succ]
      exact hwritten

-- Whatever was written twice on the way: when the whole log is committed, the table is
-- the one that writing every entry once gives.
theorem converges [Nonempty τ]
    (h : Relation.ReflTransGen (Step entry) ({} : Replica ε κ ν τ) replica)
    (hend : replica.committed = replica.log.length) :
    (∀ event ∈ replica.log, (entry event).isSome = true) ∧
      ∃ times, replica.table = replay entry times replica.log := by
  obtain ⟨times, hsound⟩ := exists_sound h
  have hstored : replica.stored = replica.log.length :=
    le_antisymm hsound.stored_le (hend ▸ hsound.committed_le)
  have hdecoded : ∀ event ∈ replica.log, (entry event).isSome = true := by
    intro event hmem
    obtain ⟨i, hi, rfl⟩ := List.mem_iff_getElem.mp hmem
    obtain ⟨key, found, value, hlog, hentry⟩ := hsound.decoded i (hstored ▸ hi)
    rw [List.getElem?_eq_getElem hi, Option.some_inj] at hlog
    rw [hlog, hentry]
    rfl
  exact ⟨hdecoded, times, hsound.unique (sound_replay hdecoded) rfl hstored rfl |>.symm⟩

end Replica

end QuantumPlatform.Process
