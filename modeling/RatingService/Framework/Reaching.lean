import RatingService.Framework.Runs
import Mathlib.Order.WellFounded

/-!
# Reaching a goal

What a machine can always come to, and what it cannot.

- §1: schedules, one behind the other.
- §2: a rank that some step lowers.
- §3: what no schedule gets out of.
-/

namespace Runs.Machine

variable {σ α β : Type*} {M : Machine σ α} {C C' : σ → α → Prop}
  {I Goal : σ → Prop}

/-! ## §1  Schedules -/

/-- From `s` some schedule that meets `C` all along ends in a state with
`Goal`. -/
def Reaches (M : Machine σ α) (C : σ → α → Prop) (s : σ) (Goal : σ → Prop) :
    Prop :=
  ∃ as s', M.Along C s as ∧ M.schedule s as = some s' ∧ Goal s'

theorem Reaches.here {s : σ} (h : Goal s) : M.Reaches C s Goal :=
  ⟨[], s, trivial, rfl, h⟩

theorem Reaches.cons {s s₁ : σ} {a : α} (hC : C s a) (hs : M.step s a = some s₁)
    (h : M.Reaches C s₁ Goal) : M.Reaches C s Goal := by
  obtain ⟨as, s', halong, hs', hgoal⟩ := h
  refine ⟨a :: as, s', ⟨hC, ?_⟩, ?_, hgoal⟩
  · rw [hs]
    exact halong
  · rw [schedule, hs]
    exact hs'

/-- **One goal after the other.** -/
theorem Reaches.trans {Goal' : σ → Prop} {s : σ} (h : M.Reaches C s Goal)
    (hnext : ∀ s, Goal s → M.Reaches C s Goal') : M.Reaches C s Goal' := by
  obtain ⟨as, s', halong, hs', hgoal⟩ := h
  induction as generalizing s with
  | nil =>
      cases hs'
      exact hnext _ hgoal
  | cons a as ih =>
      obtain ⟨s₁, hs₁, hrest⟩ := Option.bind_eq_some_iff.mp hs'
      obtain ⟨hC, halong⟩ := halong
      rw [hs₁] at halong
      exact Reaches.cons hC hs₁ (ih halong hrest)

theorem Reaches.mono {Goal' : σ → Prop} {s : σ} (h : M.Reaches C s Goal)
    (hgoal : ∀ s, Goal s → Goal' s) : M.Reaches C s Goal' :=
  h.trans fun s hs => .here (hgoal s hs)

/-! ## §2  Ranks -/

/-- **The rank rule**: where every state short of the goal has a step that
keeps the invariant and lowers the rank, the goal is reached. -/
theorem reaches_of_rank [LT β] [WellFoundedLT β] (rank : σ → β)
    (hstep : ∀ s, I s → ¬ Goal s →
      ∃ a s', C s a ∧ M.step s a = some s' ∧ I s' ∧ rank s' < rank s)
    (s : σ) (hs : I s) : M.Reaches C s fun s => I s ∧ Goal s := by
  induction hr : rank s using WellFoundedLT.induction generalizing s with
  | ind r ih =>
      by_cases hgoal : Goal s
      · exact .here ⟨hs, hgoal⟩
      · obtain ⟨a, s', hC, hs', hinv, hlt⟩ := hstep s hs hgoal
        exact .cons hC hs' (ih (rank s') (hr ▸ hlt) s' hinv rfl)

/-! ## §3  Traps -/

/-- **The trap rule**: what every step keeps, and the goal excludes, keeps the
machine from the goal. -/
theorem not_reaches_of_trap
    (hstep : ∀ s a s', I s → C s a → M.step s a = some s' → I s')
    (hgoal : ∀ s, I s → ¬ Goal s) {s : σ} (hs : I s) :
    ¬ M.Reaches C s Goal := by
  rintro ⟨as, s', halong, hs', hreached⟩
  induction as generalizing s with
  | nil =>
      cases hs'
      exact hgoal _ hs hreached
  | cons a as ih =>
      obtain ⟨s₁, hs₁, hrest⟩ := Option.bind_eq_some_iff.mp hs'
      obtain ⟨hC, halong⟩ := halong
      rw [hs₁] at halong
      exact ih (hstep s a s₁ hs hC hs₁) halong hrest

end Runs.Machine
