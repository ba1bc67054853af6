import Mathlib.Probability.ProbabilityMassFunction.Constructions

namespace QuantumPlatform.Statistics

-- Questions that depend on the answers to the ones before.
inductive Strategy (Q A : Type) where
  | stop
  | ask (question : Q) (next : A → Strategy Q A)

namespace Strategy

variable {Q A : Type}

-- These are the questions in order, with their answers.
inductive Follows : Strategy Q A → List (Q × A) → Prop where
  | stop : Follows .stop []
  | ask {question : Q} {next : A → Strategy Q A} {answer : A} {rest : List (Q × A)}
      (followed : Follows (next answer) rest) :
      Follows (.ask question next) ((question, answer) :: rest)

-- At most so many questions are asked, all of them valid ones.
inductive Within (valid : Q → Prop) : ℕ → Strategy Q A → Prop where
  | stop (limit : ℕ) : Within valid limit .stop
  | ask {limit : ℕ} {question : Q} {next : A → Strategy Q A} (asked : valid question)
      (later : ∀ answer, Within valid limit (next answer)) :
      Within valid (limit + 1) (.ask question next)

-- The law of the questions and answers, when each question has a law of its answer.
noncomputable def transcript (law : Q → PMF A) : Strategy Q A → PMF (List (Q × A))
  | .stop => PMF.pure []
  | .ask question next =>
      (law question).bind fun answer =>
        (transcript law (next answer)).map (List.cons (question, answer))

variable {law : Q → PMF A} {valid : Q → Prop} {bad : Q → A → Prop} {δ : ENNReal}

theorem toOuterMeasure_le_one {α : Type} (p : PMF α) (s : Set α) : p.toOuterMeasure s ≤ 1 := by
  calc p.toOuterMeasure s
    _ ≤ p.toOuterMeasure Set.univ := p.toOuterMeasure.mono (Set.subset_univ s)
    _ = 1 := by rw [PMF.toOuterMeasure_apply, Set.indicator_univ, p.tsum_coe]

-- A bad answer among the first ones, or later.
theorem transcript_ask_le {question : Q} {next : A → Strategy Q A} {bound : ENNReal}
    (hfirst : (law question).toOuterMeasure {answer | bad question answer} ≤ δ)
    (hlater : ∀ answer, (transcript law (next answer)).toOuterMeasure
      {asked | ∃ entry ∈ asked, bad entry.1 entry.2} ≤ bound) :
    (transcript law (.ask question next)).toOuterMeasure
      {asked | ∃ entry ∈ asked, bad entry.1 entry.2} ≤ δ + bound := by
  classical
  have hanswer : ∀ answer,
      ((transcript law (next answer)).map (List.cons (question, answer))).toOuterMeasure
          {asked | ∃ entry ∈ asked, bad entry.1 entry.2} ≤
        (if bad question answer then 1 else 0) + bound := by
    intro answer
    split_ifs with hbad
    · exact (toOuterMeasure_le_one _ _).trans le_self_add
    · rw [zero_add, PMF.toOuterMeasure_map_apply]
      refine le_trans ((transcript law (next answer)).toOuterMeasure.mono fun rest hrest => ?_)
        (hlater answer)
      obtain ⟨entry, hmem, hentry⟩ := hrest
      rcases List.mem_cons.mp hmem with rfl | hmem
      · exact absurd hentry hbad
      · exact ⟨entry, hmem, hentry⟩
  have hsingle : (tsum fun answer => law question answer * if bad question answer then 1 else 0) =
      (law question).toOuterMeasure {answer | bad question answer} := by
    simp only [PMF.toOuterMeasure_apply, Set.indicator_apply, Set.mem_ofPred_eq, mul_ite, mul_one,
      mul_zero]
  rw [transcript, PMF.toOuterMeasure_bind_apply]
  refine (ENNReal.tsum_le_tsum fun answer => mul_le_mul_right (hanswer answer) _).trans ?_
  simp only [mul_add]
  rw [ENNReal.tsum_add, ENNReal.tsum_mul_right, PMF.tsum_coe, one_mul, hsingle]
  exact add_le_add_left hfirst bound

-- However the questions depend on the answers, a bad answer to one of them is at most as
-- likely as to so many single ones.
theorem transcript_bad
    (hbad : ∀ question, valid question →
      (law question).toOuterMeasure {answer | bad question answer} ≤ δ)
    {limit : ℕ} {strategy : Strategy Q A} (hwithin : strategy.Within valid limit) :
    (transcript law strategy).toOuterMeasure {asked | ∃ entry ∈ asked, bad entry.1 entry.2} ≤
      limit * δ := by
  induction hwithin with
  | stop limit =>
      have hnone : (transcript law (.stop : Strategy Q A)).toOuterMeasure
          {asked | ∃ entry ∈ asked, bad entry.1 entry.2} = 0 := by
        rw [transcript, PMF.toOuterMeasure_pure_apply, if_neg]
        rintro ⟨entry, hmem, -⟩
        cases hmem
      rw [hnone]
      exact zero_le
  | ask asked _ ih =>
      refine (transcript_ask_le (hbad _ asked) ih).trans (le_of_eq ?_)
      push_cast
      ring

end Strategy

end QuantumPlatform.Statistics
