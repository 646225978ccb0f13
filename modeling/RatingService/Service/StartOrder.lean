import RatingService.Service.Session
import Mathlib.Algebra.BigOperators.Pi
import Mathlib.Algebra.Order.BigOperators.Group.Finset

/-!
# The start order and the counts

What holds in every run of a session, whatever the schedule: the writer counts
say which buffer the listener claims, and `dataReaderCount`, once stored, how
many workers are not in the wait. That the announcer starts before the count
is stored does no harm: its first recalculation waits for the listener, who
claims the first buffer until all workers are launched.

- §1: the writer counts.
- §2: a worker's part of the reader count.
- §3: the phases of a session.
-/

namespace RatingService

open Runs

variable {dm : DataModel} {n : ℕ}

/-! ## §1  Writer counts -/

def Listener.claim (l : Listener) : Option (Fin 2) :=
  match l.pc with
  | .claiming | .claimed | .claimingNew _ | .signalling | .errorHandled => none
  | _ => some l.inData

namespace Session

/-- A buffer's writer count is 1 while the listener claims it, else 0. -/
def WritersCounted (s : Session dm n) : Prop :=
  ∀ i, s.bufferWriterCount i = if s.listener.claim = some i then 1 else 0

theorem addWriter_self (s : Session dm n) (i : Fin 2) (change : ℤ) :
    (s.addWriter i change).bufferWriterCount i =
      s.bufferWriterCount i + change :=
  Function.update_self _ _ _

theorem addWriter_of_ne (s : Session dm n) {i j : Fin 2} (h : j ≠ i)
    (change : ℤ) :
    (s.addWriter i change).bufferWriterCount j = s.bufferWriterCount j :=
  Function.update_of_ne h _ _

variable {s s' : Session dm n}

theorem WritersCounted.claim (h : s.WritersCounted) {i : Fin 2}
    (hclaim : s.listener.claim = none)
    (hcount : s'.bufferWriterCount = (s.addWriter i 1).bufferWriterCount)
    (hclaim' : s'.listener.claim = some i) : s'.WritersCounted := by
  intro j
  rw [hcount, hclaim']
  by_cases hj : j = i
  · subst hj
    rw [addWriter_self, h, hclaim, if_pos rfl]
    rfl
  · rw [addWriter_of_ne s hj, h, hclaim, if_neg (by simp),
      if_neg (by simpa using Ne.symm hj)]

theorem WritersCounted.release (h : s.WritersCounted) {i : Fin 2}
    (hclaim : s.listener.claim = some i)
    (hcount : s'.bufferWriterCount = (s.addWriter i (-1)).bufferWriterCount)
    (hclaim' : s'.listener.claim = none) : s'.WritersCounted := by
  intro j
  rw [hcount, hclaim', if_neg (by simp)]
  by_cases hj : j = i
  · subst hj
    rw [addWriter_self, h, hclaim, if_pos rfl]
    rfl
  · rw [addWriter_of_ne s hj, h, hclaim, if_neg (by simpa using Ne.symm hj)]

theorem WritersCounted.frame (h : s.WritersCounted)
    (hcount : s'.bufferWriterCount = s.bufferWriterCount)
    (hclaim : s'.listener.claim = s.listener.claim) : s'.WritersCounted := by
  intro j
  rw [hcount, hclaim]
  exact h j

theorem WritersCounted.run (h : s.WritersCounted) (hrun : s.run = some s') :
    s'.WritersCounted := by
  cases hpc : s.listener.pc
  all_goals simp only [Session.run, hpc, reduceCtorEq] at hrun
  case claimed =>
    cases hrun
    exact h.claim (by rw [Listener.claim, hpc]) rfl rfl
  case releasing newBuffer =>
    cases hrun
    exact h.release (by rw [Listener.claim, hpc]) rfl rfl
  case claimingNew newBuffer =>
    cases hrun
    exact h.claim (by rw [Listener.claim, hpc]) rfl rfl
  case withdrawing =>
    cases hrun
    exact h.release (by rw [Listener.claim, hpc]) rfl rfl
  case launching i =>
    split at hrun <;> cases hrun <;>
      exact h.frame rfl (by simp [Listener.claim, atPc, hpc])
  case loadingBuffer =>
    split at hrun <;> cases hrun <;>
      exact h.frame rfl (by simp [Listener.claim, atPc, hpc])
  case checkingFlag =>
    cases hrun
    refine h.frame rfl ?_
    cases hflag : s.sync.badFlag <;> simp [Listener.claim, atPc, hpc]
  -- the other steps leave the claim as it is
  all_goals
    cases hrun
    exact h.frame rfl (by simp [Listener.claim, atPc, hpc])

theorem recalculate_frame (hrec : s.recalculate = some s') :
    s'.listener = s.listener ∧ s'.workers = s.workers ∧
      s'.bufferWriterCount = s.bufferWriterCount ∧
      s'.sync.dataReaderCount = s.sync.dataReaderCount := by
  rw [Session.recalculate] at hrec
  repeat' split at hrec
  all_goals first | (cases hrec; exact ⟨rfl, rfl, rfl, rfl⟩) | cases hrec

/-- **The writer counts** are right after every step. -/
theorem WritersCounted.step {a : SessionStep dm n} (h : s.WritersCounted)
    (hstep : s.step a = some s') : s'.WritersCounted := by
  cases a with
  | listener => exact h.run hstep
  | dispatch second msg =>
      obtain ⟨hpc, hs'⟩ := Option.ite_none_right_eq_some.mp hstep
      cases hs'
      exact h.frame rfl (by simp [Listener.claim, atPc, hpc])
  | listenerThrows =>
      obtain ⟨hthrow, hs'⟩ := Option.ite_none_right_eq_some.mp hstep
      cases hs'
      refine h.frame rfl ?_
      cases hpc : s.listener.pc <;> rw [hpc] at hthrow <;> cases hthrow <;>
        simp [Listener.claim, atPc, hpc]
  | calculator =>
      obtain ⟨hlistener, -, hcount, -⟩ := recalculate_frame hstep
      exact h.frame hcount (congrArg Listener.claim hlistener)
  | announcerStops =>
      obtain ⟨-, hs'⟩ := Option.ite_none_right_eq_some.mp hstep
      cases hs'
      exact h
  | worker w action =>
      obtain ⟨⟨sync, pc⟩, -, hs'⟩ := Option.map_eq_some_iff.mp hstep
      cases hs'
      exact h
  | signalError =>
      cases hstep
      exact h

theorem writersCounted_start (count : ℤ) :
    (start dm n count).WritersCounted := fun _ => rfl

end Session

/-! ## §2  The reader count -/

namespace WorkerPc

/-- A worker's part of `dataReaderCount`. -/
def weight : WorkerPc → ℤ
  | .testing | .waiting | .relocking | .unlocking | .returningToData
  | .failed => 0
  | _ => 1

theorem weight_nonneg (pc : WorkerPc) : 0 ≤ pc.weight := by
  cases pc <;> decide

end WorkerPc

section DoWork

variable {sync sync' : CoreDataSyncBlock} {pc pc' : WorkerPc}
  {action : WorkerAction}

/-- **One step of a worker**: it leaves the flag alone, and the count moves
with the worker's part of it. -/
theorem doWork_spec (h : doWork sync pc action = some (sync', pc')) :
    pc ≠ .notLaunched ∧
      sync'.refreshInProgress = sync.refreshInProgress ∧
      sync'.dataReaderCount - sync.dataReaderCount = pc'.weight - pc.weight := by
  unfold doWork at h
  split at h
  all_goals try split at h
  all_goals cases h
  all_goals simp [WorkerPc.weight]

end DoWork

/-! ## §3  Phases -/

namespace ListenerPc

/-- The announcer has not been started. -/
def BeforeStart : ListenerPc → Prop
  | .claiming | .claimed | .startingAnnouncer | .withdrawing | .signalling
  | .errorHandled => True
  | _ => False

/-- `dataReaderCount` has been stored. -/
def AfterStore : ListenerPc → Prop
  | .claiming | .claimed | .startingAnnouncer | .storingReaders => False
  | _ => True

end ListenerPc

namespace Session

/-- How far the announcer's thread can get while the listener still claims the
first buffer. -/
def Early (s : Session dm n) : Prop :=
  match s.calculator with
  | .announcing => s.incomingData.currentBufferIndex = 0
  | .exchanged taken | .awaitingWriters taken => taken = 0
  | .stopped => True
  | _ => False

/-- The start order of `Overseer::run`: the announcer is started before the
workers are counted and launched. -/
inductive Phase (s : Session dm n) : Prop
  | idle (hpc : s.listener.pc.BeforeStart) (hcalc : s.calculator = .notStarted)
      (hindex : s.incomingData.currentBufferIndex = 0)
      (hinData : s.listener.inData = 0)
      (hworkers : ∀ w, s.workers w = .notLaunched)
  | starting (hpc : s.listener.pc = .storingReaders) (hearly : s.Early)
      (hinData : s.listener.inData = 0)
      (hworkers : ∀ w, s.workers w = .notLaunched)
  | counting (hpc : s.listener.pc.AfterStore)
      (hcount : s.sync.dataReaderCount = ∑ w, (s.workers w).weight)
      (hlaunch : ∀ i, s.listener.pc = .launching i → ∀ w : Fin n, i ≤ w →
        s.workers w = .notLaunched)

variable {s s' : Session dm n}

theorem sum_weight_update (workers : Fin n → WorkerPc) (w : Fin n)
    (pc : WorkerPc) :
    ∑ w', (Function.update workers w pc w').weight =
      ∑ w', (workers w').weight + (pc.weight - (workers w).weight) := by
  have hrest : ∀ workers : Fin n → WorkerPc, ∑ w', (workers w').weight =
      (workers w).weight + ∑ w' ∈ Finset.univ.erase w, (workers w').weight :=
    fun workers => (Finset.add_sum_erase _ _ (Finset.mem_univ w)).symm
  rw [hrest, hrest workers, Function.update_self]
  have hsame : ∑ w' ∈ Finset.univ.erase w,
      (Function.update workers w pc w').weight =
      ∑ w' ∈ Finset.univ.erase w, (workers w').weight := by
    refine Finset.sum_congr rfl fun w' hw' => ?_
    rw [Function.update_of_ne (Finset.ne_of_mem_erase hw')]
  rw [hsame]
  ring

theorem weight_eq_zero {workers : Fin n → WorkerPc}
    (h : ∑ w, (workers w).weight = 0) (w : Fin n) : (workers w).weight = 0 :=
  (Finset.sum_eq_zero_iff_of_nonneg
    fun w _ => (workers w).weight_nonneg).mp h w (Finset.mem_univ w)

/-- **The listener's steps** follow the start order. -/
theorem Phase.run (h : s.Phase) (hrun : s.run = some s') : s'.Phase := by
  cases h with
  | idle hpc hcalc hindex hinData hworkers =>
      cases hpc₀ : s.listener.pc
      all_goals rw [hpc₀] at hpc
      all_goals first | exact False.elim hpc | skip
      all_goals simp only [Session.run, hpc₀, reduceCtorEq] at hrun
      case claiming =>
        cases hrun
        exact .idle trivial hcalc hindex hindex hworkers
      case startingAnnouncer =>
        cases hrun
        exact .starting rfl hindex hinData hworkers
      all_goals
        cases hrun
        exact .idle trivial hcalc hindex hinData hworkers
  | starting hpc hearly hinData hworkers =>
      simp only [Session.run, hpc] at hrun
      cases hrun
      refine .counting trivial ?_ fun i _ w _ => hworkers w
      -- nobody is launched yet, and everybody is counted
      simp [atPc, hworkers, WorkerPc.weight]
  | counting hpc hcount hlaunch =>
      cases hpc₀ : s.listener.pc
      all_goals rw [hpc₀] at hpc
      all_goals first | exact False.elim hpc | skip
      all_goals simp only [Session.run, hpc₀, reduceCtorEq] at hrun
      case launching i =>
        split at hrun
        · rename_i hi
          cases hrun
          have hw := hlaunch i hpc₀ ⟨i, hi⟩ (le_refl i)
          refine .counting trivial ?_ ?_
          · show s.sync.dataReaderCount = ∑ w,
              (Function.update s.workers ⟨i, hi⟩ WorkerPc.starting w).weight
            rw [sum_weight_update, hw, hcount]
            simp [WorkerPc.weight]
          · intro j hj w hw'
            cases hj
            have hne : w ≠ ⟨i, hi⟩ := by
              rintro rfl
              exact absurd hw' (by simp)
            show Function.update s.workers ⟨i, hi⟩ WorkerPc.starting w = _
            rw [Function.update_of_ne hne]
            exact hlaunch i hpc₀ w (by omega)
        · cases hrun
          exact .counting trivial hcount fun i hi => nomatch hi
      case checkingFlag =>
        cases hrun
        refine .counting ?_ hcount ?_
        · cases hflag : s.sync.badFlag <;> simp [atPc, ListenerPc.AfterStore]
        · intro i hi
          cases hflag : s.sync.badFlag <;> simp [atPc, hflag] at hi
      case loadingBuffer =>
        split at hrun <;> cases hrun <;>
          exact .counting trivial hcount fun i hi => nomatch hi
      all_goals
        cases hrun
        exact .counting trivial hcount fun i hi => nomatch hi

/-- **The calculator's steps** keep to the start order: they end at the wait
for the writers as long as the listener claims the first buffer. -/
theorem Phase.recalculate (h : s.Phase) (hwriters : s.WritersCounted)
    (hrec : s.recalculate = some s') : s'.Phase := by
  obtain ⟨hlistener, hworkers', -, hcount'⟩ := recalculate_frame hrec
  cases h with
  | idle hpc hcalc =>
      simp only [Session.recalculate, hcalc, reduceCtorEq] at hrec
  | starting hpc hearly hinData hworkers =>
      have hclaim : s.bufferWriterCount 0 ≠ 0 := by
        rw [hwriters, Listener.claim, hpc, hinData]
        decide
      refine .starting (hlistener ▸ hpc) ?_ (hlistener ▸ hinData)
        fun w => hworkers' ▸ hworkers w
      cases hcalc : s.calculator
      all_goals rw [Early, hcalc] at hearly
      all_goals first | exact False.elim hearly | skip
      all_goals simp only [Session.recalculate, hcalc, reduceCtorEq] at hrec
      case announcing =>
        cases hrec
        exact hearly
      case exchanged taken =>
        cases hrec
        exact hearly
      case awaitingWriters taken =>
        subst hearly
        rw [if_pos hclaim] at hrec
        cases hrec
        rw [Early, hcalc]
  | counting hpc hcount hlaunch =>
      refine .counting (hlistener ▸ hpc) ?_ ?_
      · rw [hcount', hcount, hworkers']
      · rw [hlistener, hworkers']
        exact hlaunch

/-- The listener's part in this: it starts the announcer and launches the
workers. -/
theorem run_frame (hrun : s.run = some s') :
    s'.sync.refreshInProgress = s.sync.refreshInProgress ∧
      (s'.calculator = s.calculator ∨
        s.listener.pc = .startingAnnouncer ∧ s'.calculator = .announcing) ∧
      (s'.workers = s.workers ∨ ∃ (i : ℕ) (w : Fin n),
        s.listener.pc = .launching i ∧ i = w) := by
  cases hpc : s.listener.pc
  all_goals simp only [Session.run, hpc, reduceCtorEq] at hrun
  case startingAnnouncer =>
    cases hrun
    exact ⟨rfl, Or.inr ⟨rfl, rfl⟩, Or.inl rfl⟩
  case launching i =>
    split at hrun
    · rename_i hi
      cases hrun
      exact ⟨rfl, Or.inl rfl, Or.inr ⟨i, ⟨i, hi⟩, rfl, rfl⟩⟩
    · cases hrun
      exact ⟨rfl, Or.inl rfl, Or.inl rfl⟩
  all_goals try split at hrun
  all_goals
    cases hrun
    exact ⟨rfl, Or.inl rfl, Or.inl rfl⟩

/-- **A worker's step** keeps the count. -/
theorem Phase.worker (h : s.Phase) {w : Fin n} {action : WorkerAction}
    {sync : CoreDataSyncBlock} {pc : WorkerPc}
    (hwork : doWork s.sync (s.workers w) action = some (sync, pc)) :
    ({ s with sync := sync, workers := Function.update s.workers w pc } :
      Session dm n).Phase := by
  obtain ⟨hlaunched, -, hcount⟩ := doWork_spec hwork
  cases h with
  | idle _ _ _ _ hworkers => exact absurd (hworkers w) hlaunched
  | starting _ _ _ hworkers => exact absurd (hworkers w) hlaunched
  | counting hpc hsum hlaunch =>
      refine .counting hpc ?_ ?_
      · show sync.dataReaderCount =
          ∑ w', (Function.update s.workers w pc w').weight
        rw [sum_weight_update, ← hsum]
        omega
      · intro i hi w' hw'
        have hne : w' ≠ w := by
          rintro rfl
          exact hlaunched (hlaunch i hi w' hw')
        show Function.update s.workers w pc w' = _
        rw [Function.update_of_ne hne]
        exact hlaunch i hi w' hw'

structure Ordered (s : Session dm n) : Prop where
  writers : s.WritersCounted
  phase : s.Phase

theorem ordered_start (count : ℤ) : (start dm n count).Ordered :=
  ⟨writersCounted_start count, .idle trivial rfl rfl rfl fun _ => rfl⟩

/-- **Every step** keeps a session in order. -/
theorem Ordered.step {a : SessionStep dm n} (h : s.Ordered)
    (hstep : s.step a = some s') : s'.Ordered := by
  refine ⟨h.writers.step hstep, ?_⟩
  cases a with
  | listener => exact h.phase.run hstep
  | dispatch second msg =>
      obtain ⟨hpc, hs'⟩ := Option.ite_none_right_eq_some.mp hstep
      cases hs'
      cases h.phase with
      | idle hpc₀ =>
          rw [hpc] at hpc₀
          exact hpc₀.elim
      | starting hpc₀ => cases hpc.symm.trans hpc₀
      | counting _ hcount _ =>
          exact .counting trivial hcount fun i hi => nomatch hi
  | listenerThrows =>
      obtain ⟨hthrow, hs'⟩ := Option.ite_none_right_eq_some.mp hstep
      cases hs'
      cases h.phase with
      | idle hpc hcalc hindex hinData hworkers =>
          exact .idle trivial hcalc hindex hinData hworkers
      | starting hpc =>
          rw [hpc] at hthrow
          exact hthrow.elim
      | counting hpc hcount hlaunch =>
          exact .counting trivial hcount fun i hi => nomatch hi
  | calculator => exact h.phase.recalculate h.writers hstep
  | announcerStops =>
      obtain ⟨⟨hcalc, -⟩, hs'⟩ := Option.ite_none_right_eq_some.mp hstep
      cases hs'
      cases h.phase with
      | idle _ hidle => cases hcalc.symm.trans hidle
      | starting hpc hearly hinData hworkers =>
          exact .starting hpc trivial hinData hworkers
      | counting hpc hcount hlaunch => exact .counting hpc hcount hlaunch
  | worker w action =>
      obtain ⟨⟨sync, pc⟩, hwork, hs'⟩ := Option.map_eq_some_iff.mp hstep
      cases hs'
      exact h.phase.worker hwork
  | signalError =>
      cases hstep
      cases h.phase with
      | idle hpc hcalc hindex hinData hworkers =>
          exact .idle hpc hcalc hindex hinData hworkers
      | starting hpc hearly hinData hworkers =>
          exact .starting hpc hearly hinData hworkers
      | counting hpc hcount hlaunch => exact .counting hpc hcount hlaunch

end Session

end RatingService
