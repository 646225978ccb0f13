import RatingService.Service.StartOrder

/-!
# Readers and the recalculation

While `RatingCalculatorImpl::recalculate` is at work no worker may be in code
that reads the core data. A worker whose wait is over returns to the reader
count only by an increment outside the lock, and a second recalculation may
find the count at zero in between.

- §1: who is counted.
- §2: the invariant.
- §3: runs in which the calculator never finds the count at zero while a
  worker is returning, and a run in which it does.
-/

namespace RatingService

open Runs

variable {dm : DataModel} {n : ℕ}

/-! ## §1  Counted workers -/

namespace CalculatorPc

/-- What the announcer's thread has last stored to `refreshInProgress`. -/
def refreshing : CalculatorPc → Bool
  | .awaitingWriters _ | .awaitingReaders _ | .reading _ _ | .clearing _ _
  | .locking | .resettingFlag => true
  | _ => false

/-- Past the wait for the readers, the flag not reset yet. -/
def Exclusive : CalculatorPc → Prop
  | .reading _ _ | .clearing _ _ | .locking | .resettingFlag => True
  | _ => False

end CalculatorPc

namespace WorkerPc

/-- In the wait, or gone with an exception. -/
def Asleep : WorkerPc → Prop
  | .testing | .waiting | .relocking | .failed => True
  | _ => False

theorem asleep_of_weight {pc : WorkerPc} (h : pc.weight = 0)
    (hreturning : ¬ pc.Returning) : pc.Asleep := by
  cases pc <;> simp_all [weight, Returning, Asleep]

theorem Asleep.not_reading {pc : WorkerPc} (h : pc.Asleep) : ¬ pc.Reading := by
  cases pc <;> simp_all [Asleep, Reading]

end WorkerPc

section DoWork

variable {sync sync' : CoreDataSyncBlock} {pc pc' : WorkerPc}
  {action : WorkerAction}

/-- While the flag is set a worker that is asleep stays so. -/
theorem doWork_asleep (h : doWork sync pc action = some (sync', pc'))
    (hflag : sync.refreshInProgress = true) (hasleep : pc.Asleep) :
    pc'.Asleep := by
  unfold doWork at h
  split at h
  all_goals first | exact hasleep.elim | skip
  all_goals try split at h
  all_goals first | cases h; trivial | contradiction

end DoWork

/-! ## §2  The invariant -/

namespace Session

/-- **The invariant**: while the recalculation is at work every worker is
asleep. -/
structure Excluding (s : Session dm n) : Prop where
  ordered : s.Ordered
  flag : s.sync.refreshInProgress = s.calculator.refreshing
  quiet : s.calculator.Exclusive → ∀ w, (s.workers w).Asleep

/-- The calculator does not find the reader count at zero while a worker whose
wait is over has not been counted again. -/
def NobodyReturning (s : Session dm n) : SessionStep dm n → Prop
  | .calculator => ∀ taken, s.calculator = .awaitingReaders taken →
      s.sync.dataReaderCount = 0 → ∀ w, ¬ (s.workers w).Returning
  | _ => True

instance (s : Session dm n) (a : SessionStep dm n) :
    Decidable (s.NobodyReturning a) :=
  match a with
  | .calculator => inferInstanceAs (Decidable (∀ _, _ → _ → ∀ _, ¬ _))
  | .listener | .dispatch _ _ | .listenerThrows | .announcerStops
  | .worker _ _ | .signalError => .isTrue trivial

variable {s s' : Session dm n}

theorem excluding_start (count : ℤ) : (start dm n count).Excluding where
  ordered := ordered_start count
  flag := rfl
  quiet := False.elim

/-- Past the wait for the readers everybody is asleep, if nobody was just
returning when the count was found at zero. -/
theorem quiet_recalculate (h : s.Excluding) (hC : s.NobodyReturning .calculator)
    (hrec : s.recalculate = some s') (hexcl : s'.calculator.Exclusive)
    (w : Fin n) : (s'.workers w).Asleep := by
  obtain ⟨-, hworkers', -, -⟩ := recalculate_frame hrec
  rw [hworkers']
  by_cases hbefore : s.calculator.Exclusive
  · exact h.quiet hbefore w
  cases hcalc : s.calculator
  all_goals simp only [Session.recalculate, hcalc, reduceCtorEq] at hrec
  all_goals rw [hcalc] at hbefore
  all_goals first | exact absurd trivial hbefore | skip
  case awaitingReaders taken =>
    split at hrec
    · cases hrec
      rw [hcalc] at hexcl
      exact hexcl.elim
    · rename_i hzero
      have hzero : s.sync.dataReaderCount = 0 := not_not.mp hzero
      have hreturning := hC taken hcalc hzero w
      cases h.ordered.phase with
      | idle _ hidle =>
          rw [hcalc] at hidle
          cases hidle
      | starting _ hearly =>
          rw [Early, hcalc] at hearly
          exact hearly.elim
      | counting _ hcount _ =>
          exact WorkerPc.asleep_of_weight
            (weight_eq_zero (hcount.symm.trans hzero) w) hreturning
  case awaitingWriters taken =>
    split at hrec <;> cases hrec
    · rw [hcalc] at hexcl
      exact hexcl.elim
    · exact hexcl.elim
  all_goals
    cases hrec
    exact hexcl.elim

theorem flag_recalculate
    (h : s.sync.refreshInProgress = s.calculator.refreshing)
    (hrec : s.recalculate = some s') :
    s'.sync.refreshInProgress = s'.calculator.refreshing := by
  cases hcalc : s.calculator
  all_goals rw [hcalc] at h
  all_goals simp only [Session.recalculate, hcalc, reduceCtorEq] at hrec
  case clearing taken stage =>
    cases stage <;> cases hrec <;> exact h
  all_goals try split at hrec
  all_goals cases hrec
  all_goals first | exact h | rfl | exact h.trans (hcalc ▸ rfl)

theorem Excluding.run (h : s.Excluding) (hrun : s.run = some s') :
    s'.Excluding := by
  obtain ⟨hflag, hcalc, hworkers⟩ := run_frame hrun
  refine ⟨h.ordered.step (a := .listener) hrun, ?_, ?_⟩
  · rcases hcalc with hcalc | ⟨hpc, hcalc⟩
    · rw [hflag, hcalc, h.flag]
    · rw [hflag, hcalc, h.flag]
      cases h.ordered.phase with
      | idle _ hidle => rw [hidle]; rfl
      | starting hpc₀ => cases hpc.symm.trans hpc₀
      | counting hpc₀ =>
          rw [hpc] at hpc₀
          exact hpc₀.elim
  · intro hexcl
    rcases hcalc with hcalc | ⟨-, hcalc⟩ <;> rw [hcalc] at hexcl
    · rcases hworkers with hworkers | ⟨i, w, hpc, rfl⟩
      · rw [hworkers]
        exact h.quiet hexcl
      · -- the worker to be launched would have to be asleep
        have hasleep := h.quiet hexcl w
        cases h.ordered.phase with
        | idle hpc₀ =>
            rw [hpc] at hpc₀
            exact hpc₀.elim
        | starting hpc₀ => cases hpc.symm.trans hpc₀
        | counting _ _ hlaunch =>
            rw [hlaunch w hpc w (le_refl _)] at hasleep
            exact hasleep.elim
    · exact hexcl.elim

theorem quiet_worker (h : s.Excluding) {w : Fin n} {action : WorkerAction}
    {sync : CoreDataSyncBlock} {pc : WorkerPc}
    (hwork : doWork s.sync (s.workers w) action = some (sync, pc))
    (hexcl : s.calculator.Exclusive) (w' : Fin n) :
    (Function.update s.workers w pc w').Asleep := by
  have hset : s.sync.refreshInProgress = true := by
    rw [h.flag]
    cases hcalc : s.calculator <;> rw [hcalc] at hexcl <;>
      first | rfl | exact hexcl.elim
  by_cases hw : w' = w
  · subst hw
    rw [Function.update_self]
    exact doWork_asleep hwork hset (h.quiet hexcl w')
  · rw [Function.update_of_ne hw]
    exact h.quiet hexcl w'

/-- **One step** keeps the readers out, if no worker was just returning when
the count was found at zero. -/
theorem Excluding.step {a : SessionStep dm n} (h : s.Excluding)
    (hC : s.NobodyReturning a) (hstep : s.step a = some s') :
    s'.Excluding := by
  have hordered := h.ordered.step hstep
  cases a with
  | listener => exact h.run hstep
  | dispatch second msg =>
      obtain ⟨-, hs'⟩ := Option.ite_none_right_eq_some.mp hstep
      cases hs'
      exact ⟨hordered, h.flag, h.quiet⟩
  | listenerThrows =>
      obtain ⟨-, hs'⟩ := Option.ite_none_right_eq_some.mp hstep
      cases hs'
      exact ⟨hordered, h.flag, h.quiet⟩
  | calculator =>
      exact ⟨hordered, flag_recalculate h.flag hstep,
        quiet_recalculate h hC hstep⟩
  | announcerStops =>
      obtain ⟨⟨hcalc, -⟩, hs'⟩ := Option.ite_none_right_eq_some.mp hstep
      cases hs'
      refine ⟨hordered, ?_, False.elim⟩
      rw [h.flag, hcalc]
      rfl
  | worker w action =>
      obtain ⟨⟨sync, pc⟩, hwork, hs'⟩ := Option.map_eq_some_iff.mp hstep
      cases hs'
      exact ⟨hordered, (doWork_spec hwork).2.1.trans h.flag,
        quiet_worker h hwork⟩
  | signalError =>
      cases hstep
      exact ⟨hordered, h.flag, h.quiet⟩

/-! ## §3  Runs -/

/-- **Readers are excluded** in every run in which the calculator never finds
the reader count at zero while a worker is returning. -/
theorem readers_excluded {steps : List (SessionStep dm n)}
    (hrun : (machine dm n).Run NobodyReturning steps s)
    (hexcl : s.calculator.Exclusive) (w : Fin n) :
    ¬ (s.workers w).Reading := by
  have hinv : s.Excluding := by
    apply hrun.invariant
    · rintro _ ⟨count, rfl⟩
      exact excluding_start count
    · intro s a s' h hC hstep
      exact h.step hC hstep
  exact (hinv.quiet hexcl w).not_reading

/-! ### One worker and two recalculations -/

/-- The calculator exchanges the buffers, the listener follows, the worker goes
to sleep, and the calculator is at work. -/
def firstRefresh : List (SessionStep .lp64 1) :=
  opening ++ [.calculator, .calculator] ++ message true ++ [.calculator] ++
    List.replicate 6 (.worker 0 .proceed) ++ [.calculator]

/-- Up to the end of that recalculation, and the worker is on its way back. -/
def returning : List (SessionStep .lp64 1) :=
  firstRefresh ++ List.replicate 12 .calculator ++
    List.replicate 4 (.worker 0 .proceed)

/-- The calculator starts over and finds the reader count still at zero; then
the worker is back. -/
def overtaken : List (SessionStep .lp64 1) :=
  returning ++ [.calculator, .calculator] ++ message true ++
    [.calculator, .calculator] ++ [.worker 0 .proceed]

theorem firstRefresh_excluded :
    (after firstRefresh).calculator.Exclusive ∧
      ¬ ((after firstRefresh).workers 0).Reading :=
  ⟨trivial, readers_excluded
    (Machine.run_of_schedule firstRefresh ⟨0, rfl⟩ (by decide) rfl) trivial 0⟩

theorem overtaken_reads :
    ¬ ∀ s : Session .lp64 1, (machine .lp64 1).Reachable s →
      s.calculator.Exclusive → ∀ w, ¬ (s.workers w).Reading := by
  intro h
  apply h (after overtaken) _ trivial 0 trivial
  exact Machine.reachable_of_schedule overtaken ⟨0, rfl⟩ rfl

end Session

end RatingService
