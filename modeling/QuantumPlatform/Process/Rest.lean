import QuantumPlatform.Process.Program
import Mathlib.Logic.Hydra
import Mathlib.Order.OrderIsoNat
import Mathlib.SetTheory.Ordinal.Family

namespace QuantumPlatform.Process

-- How deep the tree of a program is. An operation may have infinitely many
-- answers, so the depth is an ordinal.
noncomputable def Program.height {sig : Signature} {α : Type} : Program sig α → Ordinal.{0}
  | .ret _ => 0
  | .call _ next => ⨆ answer, Order.succ (next answer).height

theorem Program.height_next {sig : Signature} {α : Type} (op : sig.Op)
    (next : sig.Ans op → Program sig α) (answer : sig.Ans op) :
    (next answer).height < (Program.call op next).height :=
  (Order.lt_succ _).trans_le (Ordinal.le_iSup (fun other => Order.succ (next other).height) answer)

section endless

variable {State Label Rank : Type*}

-- A run that never ends.
def Endless (step : State → Label → State → Prop) (states : Nat → State)
    (labels : Nat → Label) : Prop :=
  ∀ n, step (states n) (labels n) (states (n + 1))

variable {step : State → Label → State → Prop} {states : Nat → State} {labels : Nat → Label}

theorem Endless.invariant {inv : State → Prop}
    (hstep : ∀ state label next, inv state → step state label next → inv next)
    (hendless : Endless step states labels) (hstart : inv (states 0)) (n : Nat) :
    inv (states n) := by
  induction n with
  | zero => exact hstart
  | succ n ih => exact hstep _ _ _ ih (hendless n)

-- Where every quiet step lowers the rank, a run that never ends is disturbed again and again.
theorem Endless.disturbed {inv : State → Prop} {quiet : Label → Prop} {rank : State → Rank}
    {lower : Rank → Rank → Prop} (hlower : WellFounded lower)
    (hstep : ∀ state label next, inv state → step state label next → inv next)
    (hrank : ∀ state label next, inv state → quiet label → step state label next →
      lower (rank next) (rank state))
    (hendless : Endless step states labels) (hstart : inv (states 0)) (n : Nat) :
    ∃ m, n ≤ m ∧ ¬ quiet (labels m) := by
  by_contra hnone
  have hquiet : ∀ m, n ≤ m → quiet (labels m) := by
    intro m hle
    by_contra hloud
    exact hnone ⟨m, hle, hloud⟩
  have hwf : IsWellFounded Rank lower := ⟨hlower⟩
  obtain ⟨m, hm⟩ := WellFounded.not_rel_apply_succ (r := lower) fun m => rank (states (n + m))
  have hinv := hendless.invariant hstep hstart (n + m)
  exact hm (hrank _ _ _ hinv (hquiet _ (Nat.le_add_right n m)) (hendless (n + m)))

end endless

section multiset

variable {α : Type*} {lower : α → α → Prop} {before after rest smaller : Multiset α}
  {member other : α}

-- One member is gone, and there are smaller ones in its place.
theorem cutExpand_of_eq (hsmaller : ∀ other ∈ smaller, lower other member)
    (hbefore : before = member ::ₘ rest)
    (hafter : after = smaller + rest) : Relation.CutExpand lower after before := by
  refine ⟨smaller, member, hsmaller, ?_⟩
  rw [hbefore, hafter, ← Multiset.singleton_add]
  ac_rfl

theorem cutExpand_of_lower (hlower : lower other member) (hbefore : before = member ::ₘ rest)
    (hafter : after = other ::ₘ rest) : Relation.CutExpand lower after before := by
  refine @cutExpand_of_eq _ lower before after rest {other} member ?_ hbefore hafter
  intro found hmem
  rw [Multiset.mem_singleton.mp hmem]
  exact hlower

end multiset

end QuantumPlatform.Process
