import RatingService.Service.StartOrder
import Mathlib.Algebra.BigOperators.Ring.Finset

/-!
# The reader count when a session stops

Once the workers are launched, `dataReaderCount` counts those that are at work
and, besides, those that have left `doWork` because they found `badFlag` set:
that exit has no decrement, unlike the two `catch` handlers. A calculator that
waits for the count to reach zero then waits forever. A `WorkerPool::start` that
throws half way never completes, and nothing is said of the count after it.

- §1: who should be counted, and who is.
- §2: runs in which no worker leaves on `badFlag`.
- §3: a stranded calculator.
-/

namespace RatingService

open Runs

variable {dm : DataModel} {n : ℕ}

/-! ## §1  The workers that are counted -/

namespace WorkerPc

/-- Out of `doWork`, or through with the decrement of a `catch`. -/
def Left : WorkerPc → Prop
  | .failed | .stopped => True
  | _ => False

/-- Between the decrement before the wait and the increment after it. -/
def Away : WorkerPc → Prop
  | .testing | .waiting | .relocking | .unlocking | .returningToData => True
  | _ => False

instance : DecidablePred Left := fun pc => by
  cases pc <;> unfold Left <;> infer_instance

instance : DecidablePred Away := fun pc => by
  cases pc <;> unfold Away <;> infer_instance

theorem weight_eq (pc : WorkerPc) :
    pc.weight = (if ¬ pc.Left ∧ ¬ pc.Away then 1 else 0) +
      if pc = .stopped then 1 else 0 := by
  cases pc <;> decide

end WorkerPc

namespace Session

/-- The workers that have neither left nor gone to sleep. -/
def present (s : Session dm n) : Finset (Fin n) :=
  Finset.univ.filter fun w => ¬ (s.workers w).Left ∧ ¬ (s.workers w).Away

/-- The workers that have left on `badFlag`. -/
def brokenOff (s : Session dm n) : Finset (Fin n) :=
  Finset.univ.filter fun w => s.workers w = .stopped

/-- `WorkerPool::start` has launched them all. -/
def PoolStarted (s : Session dm n) : Prop :=
  ∀ w, s.workers w ≠ .notLaunched

variable {s s' : Session dm (n + 1)}

/-- **What the count says**, in any session in order. -/
theorem Ordered.dataReaderCount (h : s.Ordered) (hstarted : s.PoolStarted) :
    s.sync.dataReaderCount = s.present.card + s.brokenOff.card := by
  cases h.phase with
  | idle _ _ _ _ hworkers => exact absurd (hworkers 0) (hstarted 0)
  | starting _ _ _ hworkers => exact absurd (hworkers 0) (hstarted 0)
  | counting _ hcount _ =>
      simp only [hcount, WorkerPc.weight_eq, Finset.sum_add_distrib]
      rw [Finset.sum_boole, Finset.sum_boole]
      rfl

/-- The count is right exactly where no worker has left on `badFlag`. -/
theorem Ordered.dataReaderCount_iff (h : s.Ordered)
    (hstarted : s.PoolStarted) :
    s.sync.dataReaderCount = s.present.card ↔
      ∀ w, s.workers w ≠ .stopped := by
  rw [h.dataReaderCount hstarted]
  have hnone : s.brokenOff.card = 0 ↔ ∀ w, s.workers w ≠ .stopped := by
    rw [Finset.card_eq_zero, brokenOff, Finset.filter_eq_empty_iff]
    simp
  rw [← hnone]
  omega

/-! ## §2  Nobody leaves on the flag -/

/-- No worker finds `badFlag` set at its check. -/
def NobodyBreaksOff (s : Session dm n) : SessionStep dm n → Prop
  | .worker w _ => s.workers w = .checkingFlag → s.sync.badFlag = false
  | _ => True

instance (s : Session dm n) : DecidablePred s.NobodyBreaksOff := fun a => by
  cases a <;> unfold NobodyBreaksOff <;> infer_instance

theorem doWork_stopped {sync sync' : CoreDataSyncBlock} {pc : WorkerPc}
    {action : WorkerAction}
    (h : doWork sync pc action = some (sync', .stopped)) :
    pc = .checkingFlag ∧ sync.badFlag = true := by
  unfold doWork at h
  split at h
  case h_2 =>
    cases hflag : sync.badFlag with
    | true => exact ⟨rfl, rfl⟩
    | false => simp [hflag] at h
  all_goals try split at h
  all_goals simp at h

theorem workers_run (hrun : s.run = some s') (w : Fin (n + 1)) :
    s'.workers w = s.workers w ∨ s'.workers w = .starting := by
  cases hpc : s.listener.pc
  all_goals simp only [Session.run, hpc, reduceCtorEq] at hrun
  case launching i =>
    split at hrun
    · rename_i hi
      cases hrun
      by_cases hw : w = ⟨i, hi⟩
      · exact Or.inr (hw ▸ Function.update_self _ _ _)
      · exact Or.inl (Function.update_of_ne hw _ _)
    · cases hrun
      exact Or.inl rfl
  all_goals try split at hrun
  all_goals
    cases hrun
    exact Or.inl rfl

theorem not_stopped_step {a : SessionStep dm (n + 1)}
    (h : ∀ w, s.workers w ≠ .stopped) (hC : s.NobodyBreaksOff a)
    (hstep : s.step a = some s') (w : Fin (n + 1)) :
    s'.workers w ≠ .stopped := by
  cases a with
  | listener =>
      rcases workers_run hstep w with hw | hw
      · exact hw ▸ h w
      · simp [hw]
  | dispatch second msg =>
      obtain ⟨-, hs'⟩ := Option.ite_none_right_eq_some.mp hstep
      cases hs'
      exact h w
  | listenerThrows =>
      obtain ⟨-, hs'⟩ := Option.ite_none_right_eq_some.mp hstep
      cases hs'
      exact h w
  | calculator =>
      rw [(recalculate_frame hstep).2.1]
      exact h w
  | announcerStops =>
      obtain ⟨-, hs'⟩ := Option.ite_none_right_eq_some.mp hstep
      cases hs'
      exact h w
  | worker v action =>
      obtain ⟨⟨sync, pc⟩, hwork, hs'⟩ := Option.map_eq_some_iff.mp hstep
      cases hs'
      show Function.update s.workers v pc w ≠ .stopped
      by_cases hw : w = v
      · subst hw
        rw [Function.update_self]
        rintro rfl
        obtain ⟨hpc, hflag⟩ := doWork_stopped hwork
        rw [hC hpc] at hflag
        cases hflag
      · rw [Function.update_of_ne hw]
        exact h w
  | signalError =>
      cases hstep
      exact h w

/-! ## §3  A stranded calculator -/

/-- The calculator spins on the reader count, and no worker is left to take
part in it. -/
structure Stranded (s : Session dm n) : Prop where
  waits : ∃ taken, s.calculator = .awaitingReaders taken
  count : s.sync.dataReaderCount ≠ 0
  gone : ∀ w, (s.workers w).Left

theorem Stranded.run (h : s.Stranded) (hordered : s.Ordered)
    (hrun : s.run = some s') : s'.Stranded := by
  obtain ⟨hwaits, hcount, hgone⟩ := h
  have hlaunched : ∀ w, s.workers w ≠ .notLaunched := by
    intro w hw
    have hleft := hgone w
    rw [hw] at hleft
    exact hleft
  cases hordered.phase with
  | idle _ _ _ _ hworkers => exact absurd (hworkers 0) (hlaunched 0)
  | starting _ _ _ hworkers => exact absurd (hworkers 0) (hlaunched 0)
  | counting hafter _ hlaunch =>
      cases hpc : s.listener.pc
      all_goals rw [hpc] at hafter
      all_goals first | exact False.elim hafter | skip
      all_goals simp only [Session.run, hpc, reduceCtorEq] at hrun
      case launching i =>
        split at hrun
        · rename_i hi
          exact absurd (hlaunch i hpc ⟨i, hi⟩ le_rfl) (hlaunched _)
        · cases hrun
          exact ⟨hwaits, hcount, hgone⟩
      all_goals try split at hrun
      all_goals
        cases hrun
        exact ⟨hwaits, hcount, hgone⟩

/-- **A stranded calculator is stranded for good.** -/
theorem Stranded.step {a : SessionStep dm (n + 1)} (h : s.Stranded)
    (hordered : s.Ordered) (hstep : s.step a = some s') : s'.Stranded := by
  cases a with
  | listener => exact h.run hordered hstep
  | dispatch second msg =>
      obtain ⟨-, hs'⟩ := Option.ite_none_right_eq_some.mp hstep
      cases hs'
      exact ⟨h.waits, h.count, h.gone⟩
  | listenerThrows =>
      obtain ⟨-, hs'⟩ := Option.ite_none_right_eq_some.mp hstep
      cases hs'
      exact ⟨h.waits, h.count, h.gone⟩
  | calculator =>
      obtain ⟨taken, hwaits⟩ := h.waits
      have hspin : s.recalculate = some s' := hstep
      simp only [Session.recalculate, hwaits] at hspin
      rw [if_pos h.count] at hspin
      cases hspin
      exact h
  | announcerStops =>
      obtain ⟨⟨hcalc, -⟩, -⟩ := Option.ite_none_right_eq_some.mp hstep
      obtain ⟨taken, hwaits⟩ := h.waits
      cases hwaits.symm.trans hcalc
  | worker w action =>
      obtain ⟨⟨sync, pc⟩, hwork, -⟩ := Option.map_eq_some_iff.mp hstep
      have hgone := h.gone w
      cases hpc : s.workers w
      all_goals rw [hpc] at hgone hwork
      all_goals first | exact False.elim hgone | cases hwork
  | signalError =>
      cases hstep
      exact ⟨h.waits, h.count, h.gone⟩

/-- **The reader count** in every run in which no worker leaves on `badFlag`:
from the moment `WorkerPool::start` has completed it is the number of the
workers that have neither left nor gone to sleep, and the calculator is never
stranded. -/
theorem readerCount_exact {steps : List (SessionStep dm (n + 1))}
    (hrun : (machine dm (n + 1)).Run NobodyBreaksOff steps s) :
    (s.PoolStarted → s.sync.dataReaderCount = s.present.card) ∧
      ¬ s.Stranded := by
  obtain ⟨hordered, hnone⟩ : s.Ordered ∧ ∀ w, s.workers w ≠ .stopped := by
    apply hrun.invariant
    · rintro _ ⟨count, rfl⟩
      exact ⟨ordered_start count, fun w => by simp [start]⟩
    · intro s a s' h hC hstep
      exact ⟨h.1.step hstep, not_stopped_step h.2 hC hstep⟩
  have hcount := fun hstarted => (hordered.dataReaderCount_iff hstarted).mpr hnone
  refine ⟨hcount, fun hstranded => hstranded.count ?_⟩
  have hstarted : s.PoolStarted := by
    intro w hw
    have hgone := hstranded.gone w
    rw [hw] at hgone
    exact hgone
  have hnobody : s.present = ∅ := by
    rw [present, Finset.filter_eq_empty_iff]
    exact fun w _ hw => hw.1 (hstranded.gone w)
  rw [hcount hstarted, hnobody]
  rfl

/-- A worker fails at its rating, and its `catch` withdraws it. -/
def withdrawn : List (SessionStep .lp64 1) :=
  opening ++ [.worker 0 .proceed, .worker 0 .proceed, .worker 0 .throws,
    .worker 0 .proceed, .worker 0 .proceed]

theorem withdrawn_count :
    ((after withdrawn).PoolStarted →
      (after withdrawn).sync.dataReaderCount =
        (after withdrawn).present.card) ∧ ¬ (after withdrawn).Stranded :=
  readerCount_exact (n := 0)
    (Machine.run_of_schedule withdrawn ⟨0, rfl⟩ (by decide) rfl)

/-- The calculator exchanges the buffers and the listener follows; `badFlag`
is set, the worker leaves, and the calculator comes to its wait. -/
def brokenSession : List (SessionStep .lp64 1) :=
  opening ++ [.calculator, .calculator] ++ message true ++
    [.signalError, .worker 0 .proceed, .calculator]

theorem brokenSession_stranded :
    ∃ s : Session .lp64 1, (machine .lp64 1).Reachable s ∧ s.PoolStarted ∧
      s.sync.dataReaderCount ≠ s.present.card ∧ s.Stranded := by
  refine ⟨after brokenSession,
    Machine.reachable_of_schedule brokenSession ⟨0, rfl⟩ rfl, ?_, by decide,
    ⟨0, rfl⟩, by decide, ?_⟩
  all_goals
    intro w
    rw [Subsingleton.elim w 0]
  · exact nofun
  · trivial

end Session

end RatingService
