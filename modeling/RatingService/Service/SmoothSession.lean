import RatingService.Service.ReaderCount
import RatingService.Service.ReaderExclusion

/-!
# A smooth session

As long as nothing is thrown and nobody signals an error, no thread leaves, and
whoever holds the lock is about to give it back.

- §1: where the threads are.
- §2: what holds in an undisturbed session.
-/

namespace RatingService

open Runs

variable {dm : DataModel} {n : ℕ}

/-! ## §1  Where the threads are -/

namespace WorkerPc

def HoldsLock : WorkerPc → Prop
  | .leavingData | .testing | .unlocking => True
  | _ => False

/-- Neither thrown out nor left by the `break`. -/
def Runs : WorkerPc → Prop
  | .caught | .withdrawing | .failed | .stopped => False
  | _ => True

end WorkerPc

namespace CalculatorPc

def HoldsLock : CalculatorPc → Prop
  | .resettingFlag | .unlocking => True
  | _ => False

/-- Behind the exchange of the buffers, up to the end of the wait for the
listener. -/
def Awaits (taken : Fin 2) : CalculatorPc → Prop
  | .exchanged b | .awaitingWriters b => b = taken
  | _ => False

end CalculatorPc

namespace ListenerPc

/-- Before the start of the announcer. -/
def Claims : ListenerPc → Prop
  | .claiming | .claimed | .startingAnnouncer => True
  | _ => False

/-- Behind the start of the announcer, before the last worker is launched. -/
def Launches : ListenerPc → Prop
  | .storingReaders | .launching _ => True
  | _ => False

def Loops : ListenerPc → Prop
  | .checkingFlag | .building | .loadingBuffer | .releasing _ | .claimingNew _
  | .settingBuffer | .dispatching => True
  | _ => False

/-- About to find the buffers exchanged, or to release the old one. -/
def Leaves : ListenerPc → Prop
  | .loadingBuffer | .releasing _ => True
  | _ => False

def BeforeLaunch (w : ℕ) : ListenerPc → Prop
  | .launching i => i ≤ w
  | .claiming | .claimed | .startingAnnouncer | .storingReaders => True
  | _ => False

end ListenerPc

section DoWork

variable {sync sync' : CoreDataSyncBlock} {pc pc' : WorkerPc}
  {action : WorkerAction}

/-- **One step of a worker** that does not throw, without an error. -/
theorem doWork_runs (h : doWork sync pc action = some (sync', pc'))
    (hpc : pc.Runs) (hcalm : sync.badFlag = false)
    (haction : action ≠ .throws) :
    pc'.Runs ∧ pc' ≠ .notLaunched ∧ sync'.badFlag = false ∧
      (sync'.locked = true →
        pc'.HoldsLock ∨ sync.locked = true ∧ ¬ pc.HoldsLock) := by
  unfold doWork at h
  split at h
  case h_2 =>
    rw [hcalm] at h
    cases h
    exact ⟨trivial, by simp, hcalm, fun hlocked => .inr ⟨hlocked, id⟩⟩
  all_goals first | exact hpc.elim | exact absurd rfl haction | skip
  all_goals try split at h
  all_goals cases h
  all_goals refine ⟨trivial, by simp, hcalm, fun hlocked => ?_⟩
  all_goals first
    | exact .inl trivial
    | exact .inr ⟨hlocked, id⟩
    | cases hlocked

end DoWork

/-! ## §2  Smooth sessions -/

namespace Session

/-- Nothing is thrown, and no error is signalled. -/
def Undisturbed (_ : Session dm n) : SessionStep dm n → Prop
  | .listenerThrows | .worker _ .throws | .signalError => False
  | _ => True

/-- **What holds as long as nothing disturbs a session.** -/
structure Smooth (s : Session dm n) : Prop where
  ordered : s.Ordered
  flag : s.sync.refreshInProgress = s.calculator.refreshing
  calm : s.sync.badFlag = false
  listener : s.listener.pc.Claims ∨ s.listener.pc.Launches ∨ s.listener.pc.Loops
  workers : ∀ w, (s.workers w).Runs
  launched : ∀ w, s.workers w = .notLaunched → s.listener.pc.BeforeLaunch w
  lock : s.sync.locked = true →
    (∃ w, (s.workers w).HoldsLock) ∨ s.calculator.HoldsLock
  goes : s.calculator ≠ .stopped
  idle : s.calculator = .notStarted → s.listener.pc.Claims
  index : ∀ taken, s.calculator.Awaits taken →
    s.incomingData.currentBufferIndex ≠ taken
  early : s.listener.pc.Launches → s.Early ∧ s.listener.inData = 0

variable {s s' : Session dm n}

theorem smooth_start (count : ℤ) : (start dm n count).Smooth where
  ordered := ordered_start count
  flag := rfl
  calm := rfl
  listener := .inl trivial
  workers := fun _ => trivial
  launched := fun _ _ => trivial
  lock := fun h => by cases h
  goes := by simp [start]
  idle := fun _ => trivial
  index := fun _ h => h.elim
  early := fun h => h.elim

theorem Smooth.notStarted (h : s.Smooth) (hpc : s.listener.pc.Claims) :
    s.calculator = .notStarted ∧ s.incomingData.currentBufferIndex = 0 ∧
      s.listener.inData = 0 := by
  cases h.ordered.phase with
  | idle _ hcalc hindex hinData _ => exact ⟨hcalc, hindex, hinData⟩
  | starting hpc₀ =>
      rw [hpc₀] at hpc
      exact hpc.elim
  | counting hpc₀ =>
      cases hpc₁ : s.listener.pc <;> rw [hpc₁] at hpc₀ hpc <;>
        first | exact hpc.elim | exact hpc₀.elim

theorem Smooth.loops (h : s.Smooth) (hstarted : s.PoolStarted)
    (hcalc : s.calculator ≠ .notStarted) {l : Listener} {counts : Fin 2 → ℤ}
    {d : IncomingDataDoubleBuffer dm} {log : List (SessionEvent dm)}
    (hpc : l.pc.Loops)
    (hindex : d.currentBufferIndex = s.incomingData.currentBufferIndex)
    (hordered : Ordered { s with
      incomingData := d, bufferWriterCount := counts, listener := l
      log := log }) :
    Smooth { s with
      incomingData := d, bufferWriterCount := counts, listener := l
      log := log } where
  ordered := hordered
  flag := h.flag
  calm := h.calm
  listener := .inr (.inr hpc)
  workers := h.workers
  launched := fun w hw => absurd hw (hstarted w)
  lock := h.lock
  goes := h.goes
  idle := fun hidle => absurd hidle hcalc
  index := fun taken hawaits => hindex ▸ h.index taken hawaits
  early := fun hlaunches => by
    dsimp only at hlaunches
    cases hl : l.pc <;> rw [hl] at hpc hlaunches <;>
      first | exact hpc.elim | exact hlaunches.elim

theorem Smooth.poolStarted (h : s.Smooth) (hpc : s.listener.pc.Loops) :
    s.PoolStarted := by
  intro w hw
  have hbefore := h.launched w hw
  cases hl : s.listener.pc <;> rw [hl] at hpc hbefore <;>
    first | exact hpc.elim | exact hbefore.elim

theorem Smooth.started (h : s.Smooth) (hpc : ¬ s.listener.pc.Claims) :
    s.calculator ≠ .notStarted :=
  fun hcalc => hpc (h.idle hcalc)

theorem Smooth.notLaunched (h : s.Smooth) {i : ℕ}
    (hpc : s.listener.pc = .launching i) (w : Fin n) (hw : i ≤ w) :
    s.workers w = .notLaunched := by
  cases h.ordered.phase with
  | idle hpc₀ =>
      rw [hpc] at hpc₀
      exact hpc₀.elim
  | starting hpc₀ => cases hpc.symm.trans hpc₀
  | counting _ _ hlaunch => exact hlaunch i hpc w hw

theorem Smooth.run (h : s.Smooth) (hrun : s.run = some s') : s'.Smooth := by
  have hordered : s'.Ordered := h.ordered.step (a := .listener) hrun
  cases hpc : s.listener.pc
  all_goals simp only [Session.run, hpc, reduceCtorEq] at hrun
  case claiming | claimed =>
    obtain ⟨hcalc, -, -⟩ := h.notStarted (by rw [hpc]; trivial)
    cases hrun
    exact ⟨hordered, h.flag, h.calm, .inl trivial, h.workers,
      fun _ _ => trivial, h.lock, h.goes, fun _ => trivial, h.index,
      False.elim⟩
  case startingAnnouncer =>
    obtain ⟨hcalc, hindex, hinData⟩ := h.notStarted (by rw [hpc]; trivial)
    have hflag := h.flag
    have hlock := h.lock
    rw [hcalc] at hflag hlock
    cases hrun
    exact ⟨hordered, hflag, h.calm, .inr (.inl trivial), h.workers,
      fun _ _ => trivial, hlock, by simp [atPc], by simp [atPc],
      fun _ => False.elim, fun _ => ⟨hindex, hinData⟩⟩
  case storingReaders =>
    have hcalc := h.started (by rw [hpc]; exact id)
    have hearly := h.early (by rw [hpc]; trivial)
    cases hrun
    exact ⟨hordered, h.flag, h.calm, .inr (.inl trivial), h.workers,
      fun _ _ => Nat.zero_le _, h.lock, h.goes, fun hidle => absurd hidle hcalc,
      h.index, fun _ => hearly⟩
  case launching i =>
    have hcalc := h.started (by rw [hpc]; exact id)
    have hearly := h.early (by rw [hpc]; trivial)
    have hlaunched := h.launched
    rw [hpc] at hlaunched
    split at hrun
    · next hi =>
      cases hrun
      refine ⟨hordered, h.flag, h.calm, .inr (.inl trivial), fun w => ?_,
        fun w hw => ?_, fun hlocked => ?_, h.goes,
        fun hidle => absurd hidle hcalc, h.index, fun _ => hearly⟩
      · show (Function.update s.workers ⟨i, hi⟩ .starting w).Runs
        by_cases heq : w = ⟨i, hi⟩
        · rw [heq, Function.update_self]
          trivial
        · rw [Function.update_of_ne heq]
          exact h.workers w
      · change Function.update s.workers ⟨i, hi⟩ .starting w = .notLaunched at hw
        by_cases heq : w = ⟨i, hi⟩
        · rw [heq, Function.update_self] at hw
          cases hw
        · rw [Function.update_of_ne heq] at hw
          have hle := hlaunched w hw
          have hne : (w : ℕ) ≠ i := fun heq' => heq (Fin.ext heq')
          show i + 1 ≤ w
          exact Nat.lt_of_le_of_ne hle hne.symm
      · rcases h.lock hlocked with ⟨w, hw⟩ | hcalc
        · refine .inl ⟨w, ?_⟩
          show (Function.update s.workers ⟨i, hi⟩ .starting w).HoldsLock
          have hnot := h.notLaunched hpc ⟨i, hi⟩ le_rfl
          rw [Function.update_of_ne]
          · exact hw
          · rintro rfl
            rw [hnot] at hw
            exact hw.elim
        · exact .inr hcalc
    · next hi =>
      cases hrun
      refine h.loops (fun w hw => hi ?_) hcalc trivial rfl hordered
      exact lt_of_le_of_lt (hlaunched w hw) w.isLt
  case withdrawing | signalling =>
    have hlistener := h.listener
    rw [hpc] at hlistener
    exact (hlistener.elim id (Or.elim · id id)).elim
  all_goals
    have hstarted := h.poolStarted (by rw [hpc]; trivial)
    have hcalc := h.started (by rw [hpc]; exact id)
  case checkingFlag =>
    rw [h.calm] at hrun
    cases hrun
    exact h.loops hstarted hcalc trivial rfl hordered
  case loadingBuffer =>
    split at hrun <;> cases hrun <;>
      exact h.loops hstarted hcalc trivial rfl hordered
  all_goals
    cases hrun
    exact h.loops hstarted hcalc trivial rfl hordered

theorem index_recalculate (hrec : s.recalculate = some s')
    (h : ∀ taken, s.calculator.Awaits taken →
      s.incomingData.currentBufferIndex ≠ taken) :
    ∀ taken, s'.calculator.Awaits taken →
      s'.incomingData.currentBufferIndex ≠ taken := by
  have hswitched : ∀ i : Fin 2, 1 - i ≠ i := by decide
  cases hcalc : s.calculator
  all_goals rw [hcalc] at h
  all_goals simp only [Session.recalculate, hcalc, reduceCtorEq] at hrec
  case clearing taken stage =>
    cases stage <;> cases hrec <;> exact fun _ => False.elim
  case announcing =>
    cases hrec
    rintro taken rfl
    exact hswitched _
  all_goals try split at hrec
  all_goals cases hrec
  all_goals first
    | exact h
    | (rw [hcalc]; exact h)
    | exact fun _ => False.elim

theorem lock_recalculate (hrec : s.recalculate = some s')
    (h : s.sync.locked = true →
      (∃ w, (s.workers w).HoldsLock) ∨ s.calculator.HoldsLock) :
    s'.sync.locked = true →
      (∃ w, (s'.workers w).HoldsLock) ∨ s'.calculator.HoldsLock := by
  cases hcalc : s.calculator
  all_goals rw [hcalc] at h
  all_goals simp only [Session.recalculate, hcalc, reduceCtorEq] at hrec
  case clearing taken stage =>
    cases stage <;> cases hrec <;> exact fun hlocked => (h hlocked).imp id False.elim
  case locking =>
    split at hrec <;> cases hrec
    exact fun _ => .inr trivial
  case resettingFlag =>
    cases hrec
    exact fun _ => .inr trivial
  case unlocking =>
    cases hrec
    exact fun hlocked => by cases hlocked
  all_goals try split at hrec
  all_goals cases hrec
  all_goals exact fun hlocked => (h hlocked).imp id False.elim

/-- While workers are launched, the calculator gets to the wait for the
listener and no further. -/
theorem early_recalculate (hrec : s.recalculate = some s')
    (hwriters : s.bufferWriterCount 0 ≠ 0) (h : s.Early) : s'.Early := by
  cases hcalc : s.calculator
  all_goals rw [Early, hcalc] at h
  all_goals first | exact h.elim | skip
  all_goals simp only [Session.recalculate, hcalc, reduceCtorEq] at hrec
  case awaitingWriters taken =>
    subst h
    rw [if_pos hwriters] at hrec
    cases hrec
    rw [Early, hcalc]
  all_goals
    cases hrec
    exact h

theorem goes_recalculate (hrec : s.recalculate = some s') :
    s'.sync.badFlag = s.sync.badFlag ∧ s'.calculator ≠ .notStarted ∧
      s'.calculator ≠ .stopped := by
  cases hcalc : s.calculator
  all_goals simp only [Session.recalculate, hcalc, reduceCtorEq] at hrec
  case clearing taken stage =>
    cases stage <;> cases hrec <;> simp
  all_goals try split at hrec
  all_goals cases hrec
  all_goals simp [hcalc]

theorem Ordered.launching_claims (h : s.Ordered) (hpc : s.listener.pc.Launches) :
    s.bufferWriterCount s.listener.inData ≠ 0 := by
  have hclaim : s.listener.claim = some s.listener.inData := by
    cases hl : s.listener.pc <;> rw [hl] at hpc <;>
      first | exact hpc.elim | (rw [Listener.claim, hl])
  rw [h.writers, if_pos hclaim]
  exact one_ne_zero

theorem Smooth.recalculate (h : s.Smooth) (hrec : s.recalculate = some s') :
    s'.Smooth := by
  obtain ⟨hlistener, hworkers, -, -⟩ := recalculate_frame hrec
  obtain ⟨hbad, hcalc, hgoes⟩ := goes_recalculate hrec
  refine ⟨h.ordered.step (a := .calculator) hrec, flag_recalculate h.flag hrec,
    hbad.trans h.calm, hlistener ▸ h.listener, hworkers ▸ h.workers, ?_,
    lock_recalculate hrec h.lock, hgoes, fun hidle => absurd hidle hcalc,
    index_recalculate hrec h.index, fun hpc => ?_⟩
  · rw [hworkers, hlistener]
    exact h.launched
  · rw [hlistener] at hpc ⊢
    obtain ⟨hearly, hinData⟩ := h.early hpc
    have hclaims := h.ordered.launching_claims hpc
    rw [hinData] at hclaims
    exact ⟨early_recalculate hrec hclaims hearly, hinData⟩

theorem Smooth.worker (h : s.Smooth) {w : Fin n} {action : WorkerAction}
    {sync : CoreDataSyncBlock} {pc : WorkerPc}
    (hwork : doWork s.sync (s.workers w) action = some (sync, pc))
    (haction : action ≠ .throws)
    (hordered : Ordered { s with
      sync := sync, workers := Function.update s.workers w pc }) :
    Smooth { s with
      sync := sync, workers := Function.update s.workers w pc } := by
  obtain ⟨hruns, hlaunched, hcalm, hlock⟩ :=
    doWork_runs hwork (h.workers w) h.calm haction
  refine ⟨hordered, (doWork_spec hwork).2.1.trans h.flag, hcalm, h.listener,
    fun v => ?_, fun v hv => ?_, fun hlocked => ?_, h.goes, h.idle, h.index,
    h.early⟩
  · show (Function.update s.workers w pc v).Runs
    by_cases heq : v = w
    · rw [heq, Function.update_self]
      exact hruns
    · rw [Function.update_of_ne heq]
      exact h.workers v
  · change Function.update s.workers w pc v = .notLaunched at hv
    by_cases heq : v = w
    · rw [heq, Function.update_self] at hv
      exact absurd hv hlaunched
    · rw [Function.update_of_ne heq] at hv
      exact h.launched v hv
  · rcases hlock hlocked with hholds | ⟨hbefore, hnot⟩
    · refine .inl ⟨w, ?_⟩
      show (Function.update s.workers w pc w).HoldsLock
      rw [Function.update_self]
      exact hholds
    · refine (h.lock hbefore).imp_left fun ⟨v, hv⟩ => ⟨v, ?_⟩
      have hne : v ≠ w := fun heq => hnot (heq ▸ hv)
      show (Function.update s.workers w pc v).HoldsLock
      rw [Function.update_of_ne hne]
      exact hv

/-- **Every step** that nothing disturbs keeps a session smooth. -/
theorem Smooth.step {a : SessionStep dm n} (h : s.Smooth)
    (hC : s.Undisturbed a) (hstep : s.step a = some s') : s'.Smooth := by
  have hordered := h.ordered.step hstep
  cases a with
  | listener => exact h.run hstep
  | dispatch second msg =>
      obtain ⟨hpc, hs'⟩ := Option.ite_none_right_eq_some.mp hstep
      cases hs'
      exact h.loops (h.poolStarted (by rw [hpc]; trivial))
        (h.started (by rw [hpc]; exact id)) trivial rfl hordered
  | listenerThrows => exact hC.elim
  | calculator => exact h.recalculate hstep
  | announcerStops =>
      obtain ⟨⟨-, hflag⟩, -⟩ := Option.ite_none_right_eq_some.mp hstep
      exact absurd hflag (by rw [h.calm]; exact Bool.false_ne_true)
  | worker w action =>
      obtain ⟨⟨sync, pc⟩, hwork, hs'⟩ := Option.map_eq_some_iff.mp hstep
      cases hs'
      refine h.worker hwork ?_ hordered
      rintro rfl
      exact hC
  | signalError => exact hC.elim

end Session

end RatingService
