import RatingService.Service.SmoothSession

/-!
# The way of a recalculation

The calculator waits for the listener, for the workers and for the lock. In a
smooth session each of them can always get out of its way. The listener,
though, looks for the buffers' exchange only behind a message: while it waits
for one, with the buffer that the calculator has taken, nothing else helps.

- §1: how far everybody is.
- §2: steps that bring a recalculation nearer to its end.
- §3: a calculator that is held up.
-/

namespace RatingService

open Runs

variable {dm : DataModel} {n : ℕ}

/-! ## §1  How far everybody is -/

namespace WorkerPc

def rank : WorkerPc → ℕ
  | .caching => 11
  | .errors => 10
  | .notLaunched | .promises => 9
  | .starting | .userData => 8
  | .checkingFlag => 7
  | .checkingRefresh => 6
  | .depleting => 5
  | .locking => 4
  | .leavingData => 3
  | .testing => 2
  | .unlocking => 1
  | _ => 0

end WorkerPc

namespace CalculatorPc

def rank : CalculatorPc → ℕ
  | .exchanged _ => 15
  | .awaitingWriters _ => 14
  | .awaitingReaders _ => 13
  | .reading _ .registrations => 12
  | .clearing _ .registrations => 11
  | .reading _ .renames => 10
  | .clearing _ .renames => 9
  | .reading _ .connectionChanges => 8
  | .clearing _ .connectionChanges => 7
  | .reading _ .deals => 6
  | .clearing _ .deals => 5
  | .locking => 4
  | .resettingFlag => 3
  | .unlocking => 2
  | .notifying => 1
  | .notStarted | .announcing | .stopped => 0

end CalculatorPc

namespace ListenerPc

/-- From the start of the announcer on, the steps up to the release of a buffer
that is not the current one. -/
def rank (n : ℕ) : ListenerPc → ℕ
  | .storingReaders => n + 9
  | .launching i => n - i + 8
  | .settingBuffer => 7
  | .dispatching => 6
  | .checkingFlag => 5
  | .building => 4
  | .loadingBuffer => 3
  | .releasing _ => 2
  | _ => 0

end ListenerPc

namespace Session

/-- What the calculator may have to wait for. -/
def rest (s : Session dm n) : ℕ :=
  s.listener.pc.rank n + ∑ w, (s.workers w).rank

variable {s s' : Session dm n}

theorem sum_rank_update (workers : Fin n → WorkerPc) {w : Fin n}
    {pc : WorkerPc} (h : pc.rank < (workers w).rank) :
    ∑ v, (Function.update workers w pc v).rank < ∑ v, (workers v).rank := by
  refine Finset.sum_lt_sum (fun v _ => ?_) ⟨w, Finset.mem_univ w, ?_⟩
  · by_cases heq : v = w
    · rw [heq, Function.update_self]
      exact h.le
    · rw [Function.update_of_ne heq]
  · rw [Function.update_self]
    exact h

/-! ## §2  A step in the right direction -/

/-- A step of another thread that the calculator may have to wait for. -/
def Quickens (s : Session dm n) (a : SessionStep dm n) : Prop :=
  ∃ s', s.step a = some s' ∧ s'.calculator = s.calculator ∧ s'.rest < s.rest

/-- **The calculator** goes on where it need not wait. -/
theorem quickens_calculator (hworks : 0 < s.calculator.rank)
    (hwriters : ∀ taken, s.calculator = .awaitingWriters taken →
      s.bufferWriterCount taken = 0)
    (hreaders : ∀ taken, s.calculator = .awaitingReaders taken →
      s.sync.dataReaderCount = 0)
    (hlock : s.calculator = .locking → s.sync.locked = false) :
    ∃ s', s.recalculate = some s' ∧
      s'.calculator.rank < s.calculator.rank := by
  cases hcalc : s.calculator
  all_goals rw [hcalc] at hworks
  all_goals simp only [Session.recalculate, hcalc]
  case notStarted | announcing | stopped => exact absurd hworks (lt_irrefl 0)
  case awaitingWriters taken =>
    rw [if_neg (not_not.mpr (hwriters taken hcalc))]
    exact ⟨_, rfl, by simp [CalculatorPc.rank]⟩
  case awaitingReaders taken =>
    rw [if_neg (not_not.mpr (hreaders taken hcalc))]
    exact ⟨_, rfl, by simp [CalculatorPc.rank]⟩
  case reading taken stage =>
    exact ⟨_, rfl, by cases stage <;> simp [CalculatorPc.rank]⟩
  case clearing taken stage =>
    cases stage <;> exact ⟨_, rfl, by simp [CalculatorPc.rank]⟩
  case locking =>
    rw [hlock hcalc, if_neg Bool.false_ne_true]
    exact ⟨_, rfl, by simp [CalculatorPc.rank]⟩
  all_goals exact ⟨_, rfl, by simp [CalculatorPc.rank]⟩

/-- **A worker** gets to the wait, if a recalculation is under way and he need
not wait for the lock. -/
theorem quickens_worker (hflag : s.sync.refreshInProgress = true)
    (hcalm : s.sync.badFlag = false) {w : Fin n}
    (hrank : 0 < (s.workers w).rank) (hlaunched : s.workers w ≠ .notLaunched)
    (hlock : s.workers w = .locking → s.sync.locked = false) :
    s.Quickens (.worker w .proceed) := by
  have hwork : ∃ sync pc, doWork s.sync (s.workers w) .proceed =
      some (sync, pc) ∧ pc.rank < (s.workers w).rank := by
    cases hpc : s.workers w
    all_goals rw [hpc] at hrank
    all_goals simp only [doWork]
    case notLaunched => exact absurd hpc hlaunched
    case checkingFlag =>
      rw [hcalm]
      exact ⟨_, _, rfl, by simp [WorkerPc.rank]⟩
    case checkingRefresh =>
      rw [hflag]
      exact ⟨_, _, rfl, by simp [WorkerPc.rank]⟩
    case testing =>
      rw [hflag]
      exact ⟨_, _, rfl, by simp [WorkerPc.rank]⟩
    case locking =>
      rw [hlock hpc]
      exact ⟨_, _, rfl, by simp [WorkerPc.rank]⟩
    all_goals first
      | exact absurd hrank (lt_irrefl 0)
      | exact ⟨_, _, rfl, by simp [WorkerPc.rank]⟩
  obtain ⟨sync, pc, hwork, hlt⟩ := hwork
  refine ⟨{ s with sync := sync, workers := Function.update s.workers w pc },
    ?_, rfl, ?_⟩
  · show (doWork s.sync (s.workers w) .proceed).map _ = _
    rw [hwork]
    rfl
  · exact Nat.add_lt_add_left (sum_rank_update s.workers hlt) _

theorem Smooth.quickens_holder (h : s.Smooth)
    (hflag : s.sync.refreshInProgress = true)
    (hcalc : ¬ s.calculator.HoldsLock) (hlocked : s.sync.locked = true) :
    ∃ w, s.Quickens (.worker w .proceed) := by
  obtain ⟨w, hw⟩ := (h.lock hlocked).resolve_right hcalc
  refine ⟨w, quickens_worker hflag h.calm ?_ ?_ ?_⟩
  all_goals
    cases hpc : s.workers w <;> rw [hpc] at hw <;>
      first | exact hw.elim | simp [WorkerPc.rank]

/-- **A worker who is counted** comes to the wait. -/
theorem Smooth.quickens_reader (h : s.Smooth)
    (hflag : s.sync.refreshInProgress = true)
    (hcalc : ¬ s.calculator.HoldsLock) {w : Fin n}
    (hcounted : (s.workers w).weight ≠ 0)
    (hlaunched : s.workers w ≠ .notLaunched) :
    ∃ w, s.Quickens (.worker w .proceed) := by
  by_cases hlocked : s.sync.locked = true
  · exact h.quickens_holder hflag hcalc hlocked
  refine ⟨w, quickens_worker hflag h.calm ?_ hlaunched fun _ =>
    Bool.not_eq_true _ ▸ hlocked⟩
  have hruns := h.workers w
  cases hpc : s.workers w <;> rw [hpc] at hruns hcounted <;>
    first
    | exact hruns.elim
    | exact absurd rfl hcounted
    | simp [WorkerPc.rank]

/-- **Behind the wait for the listener** nothing more is needed of him. -/
theorem Smooth.quickens_inside (h : s.Smooth) (hworks : 0 < s.calculator.rank)
    (hwriters : ∀ taken, s.calculator = .awaitingWriters taken →
      s.bufferWriterCount taken = 0) :
    (∃ s', s.recalculate = some s' ∧
      s'.calculator.rank < s.calculator.rank) ∨
    ∃ w, s.Quickens (.worker w .proceed) := by
  by_cases hreaders : ∀ taken, s.calculator = .awaitingReaders taken →
      s.sync.dataReaderCount = 0
  · by_cases hlock : s.calculator = .locking → s.sync.locked = false
    · exact .inl (quickens_calculator hworks hwriters hreaders hlock)
    · obtain ⟨hcalc, hlocked⟩ := Classical.not_imp.mp hlock
      refine .inr (h.quickens_holder ?_ ?_ (by simpa using hlocked))
      · rw [h.flag, hcalc]
        rfl
      · rw [hcalc]
        exact id
  · obtain ⟨taken, hreaders⟩ := not_forall.mp hreaders
    obtain ⟨hcalc, hcount⟩ := Classical.not_imp.mp hreaders
    refine .inr ?_
    have hflag : s.sync.refreshInProgress = true := by
      rw [h.flag, hcalc]
      rfl
    have hnot : ¬ s.calculator.HoldsLock := by
      rw [hcalc]
      exact id
    cases h.ordered.phase with
    | idle _ hidle => cases hidle.symm.trans hcalc
    | starting _ hearly =>
        rw [Early, hcalc] at hearly
        exact hearly.elim
    | counting hafter hsum _ =>
        rw [hsum] at hcount
        obtain ⟨w, -, hw⟩ := Finset.exists_ne_zero_of_sum_ne_zero hcount
        refine h.quickens_reader hflag hnot hw fun hlaunched => ?_
        -- who launches workers would still hold the calculator up
        have hbefore := h.launched w hlaunched
        have hpc : s.listener.pc.Launches := by
          cases hl : s.listener.pc <;> rw [hl] at hafter hbefore <;>
            first | exact hbefore.elim | exact hafter.elim | trivial
        have hearly := (h.early hpc).1
        rw [Early, hcalc] at hearly
        exact hearly

theorem quickens_of_run (hrun : s.run = some s')
    (hcalc : s'.calculator = s.calculator) (hworkers : s'.workers = s.workers)
    (h : s'.listener.pc.rank n < s.listener.pc.rank n) :
    s.Quickens .listener := by
  refine ⟨s', hrun, hcalc, ?_⟩
  rw [rest, rest, hworkers]
  exact Nat.add_lt_add_right h _

theorem Smooth.quickens_leaving (h : s.Smooth) {taken : Fin 2}
    (hawaits : s.calculator.Awaits taken)
    (hclaim : s.listener.claim = some taken) (hpc : s.listener.pc.Leaves) :
    s.Quickens .listener := by
  have hindex := h.index taken hawaits
  cases hpc₀ : s.listener.pc
  all_goals rw [hpc₀] at hpc
  all_goals first | exact hpc.elim | skip
  case loadingBuffer =>
    rw [Listener.claim, hpc₀] at hclaim
    cases hclaim
    have hrun : s.run =
        some (s.atPc (.releasing s.incomingData.currentBufferIndex)) := by
      simp only [Session.run, hpc₀]
      exact if_pos hindex
    exact quickens_of_run hrun rfl rfl (by simp [atPc, hpc₀, ListenerPc.rank])
  case releasing newBuffer =>
    have hrun : s.run = some ((s.addWriter s.listener.inData (-1)).atPc
        (.claimingNew newBuffer)) := by
      simp only [Session.run, hpc₀]
    exact quickens_of_run hrun rfl rfl (by simp [atPc, hpc₀, ListenerPc.rank])

/-- **The listener** comes to release the buffer, behind a message at the
latest. -/
theorem Smooth.quickens_listener (h : s.Smooth) {taken : Fin 2}
    (hawaits : s.calculator.Awaits taken)
    (hclaim : s.listener.claim = some taken) :
    s.Quickens .listener ∨ s.Quickens (.dispatch 0 (.disconnected {})) := by
  have hlistener := h.listener
  have hstarted : ¬ s.listener.pc.Claims := by
    intro hpc
    rw [(h.notStarted hpc).1] at hawaits
    exact hawaits
  cases hpc : s.listener.pc
  all_goals rw [Listener.claim, hpc] at hclaim
  all_goals rw [hpc] at hlistener hstarted
  all_goals cases hclaim
  case startingAnnouncer => exact absurd trivial hstarted
  case withdrawing | loopEnded =>
    exact (hlistener.elim id (Or.elim · id id)).elim
  case loadingBuffer | releasing =>
    refine .inl (h.quickens_leaving hawaits ?_ (by rw [hpc]; trivial))
    rw [Listener.claim, hpc]
  case storingReaders =>
    have hrun : s.run = some ({ s with
        sync := { s.sync with dataReaderCount := n } }.atPc (.launching 0)) := by
      simp only [Session.run, hpc]
    exact .inl (quickens_of_run hrun rfl rfl
      (by simp [atPc, hpc, ListenerPc.rank]))
  case launching i =>
    by_cases hi : i < n
    · have hrun : s.run = some ({ s with
          workers := Function.update s.workers ⟨i, hi⟩ .starting }.atPc
            (.launching (i + 1))) := by
        simp only [Session.run, hpc, dif_pos hi]
      refine .inl ⟨_, hrun, rfl, ?_⟩
      have hpc' : ListenerPc.rank n (.launching (i + 1)) <
          s.listener.pc.rank n := by
        rw [hpc]
        simp only [ListenerPc.rank]
        omega
      refine Nat.add_lt_add hpc' (sum_rank_update s.workers ?_)
      rw [h.notLaunched hpc ⟨i, hi⟩ le_rfl]
      simp [WorkerPc.rank]
    · have hrun : s.run = some (s.atPc .checkingFlag) := by
        simp only [Session.run, hpc, dif_neg hi]
      exact .inl (quickens_of_run hrun rfl rfl
        (by simp [atPc, hpc, ListenerPc.rank]))
  case checkingFlag =>
    have hrun : s.run = some (s.atPc .building) := by
      simp [Session.run, hpc, h.calm]
    exact .inl (quickens_of_run hrun rfl rfl
      (by simp [atPc, hpc, ListenerPc.rank]))
  case building =>
    have hrun : s.run = some (s.atPc .loadingBuffer) := by
      simp only [Session.run, hpc]
    exact .inl (quickens_of_run hrun rfl rfl
      (by simp [atPc, hpc, ListenerPc.rank]))
  case settingBuffer =>
    have hrun : s.run = some { s with listener := { s.listener with
        pc := .dispatching, dispatcherBuffer := s.listener.inData } } := by
      simp only [Session.run, hpc]
    exact .inl (quickens_of_run hrun rfl rfl (by simp [hpc, ListenerPc.rank]))
  case dispatching =>
    refine .inr ⟨_, if_pos hpc, rfl, ?_⟩
    exact Nat.add_lt_add_right (by simp [atPc, hpc, ListenerPc.rank]) _

/-! ## §3  Without another message -/

def Silent (s : Session dm n) : SessionStep dm n → Prop
  | .listener => s.listener.pc ≠ .building
  | a => s.Undisturbed a

/-- **The calculator is held up**: it waits, or is about to, for the listener
to release the buffer, and the listener will not look for another one before
the next message. -/
def Stalled (s : Session dm n) : Prop :=
  ∃ taken, s.calculator.Awaits taken ∧ s.listener.claim = some taken ∧
    ¬ s.listener.pc.Leaves

theorem not_stalled_of_frame (hlistener : s'.listener = s.listener)
    (hcalc : ∀ taken, s'.calculator.Awaits taken → s.calculator.Awaits taken)
    (h : ¬ s.Stalled) : ¬ s'.Stalled := by
  rintro ⟨taken, hawaits, hclaim, hpc⟩
  rw [hlistener] at hclaim hpc
  exact h ⟨taken, hcalc taken hawaits, hclaim, hpc⟩

theorem awaits_recalculate (hrec : s.recalculate = some s')
    (hcalc : s.calculator ≠ .announcing) (taken : Fin 2)
    (h : s'.calculator.Awaits taken) : s.calculator.Awaits taken := by
  cases hcalc₀ : s.calculator
  all_goals simp only [Session.recalculate, hcalc₀, reduceCtorEq] at hrec
  case announcing => exact absurd hcalc₀ hcalc
  case clearing b stage =>
    cases stage <;> cases hrec <;> exact h.elim
  all_goals try split at hrec
  all_goals cases hrec
  all_goals first | exact h | exact h.elim | (rw [hcalc₀] at h; exact h)

/-- Once the listener is about to release the buffer, nobody is held up. -/
theorem Smooth.not_stalled_of_leaving (h : s.Smooth) {taken : Fin 2}
    (hawaits : s.calculator.Awaits taken)
    (hclaim : s.listener.claim = some taken) (hpc : s.listener.pc.Leaves)
    (hrun : s.run = some s') : ¬ s'.Stalled := by
  cases hpc₀ : s.listener.pc
  all_goals rw [hpc₀] at hpc
  all_goals first | exact hpc.elim | skip
  all_goals simp only [Session.run, hpc₀] at hrun
  case loadingBuffer =>
    rw [Listener.claim, hpc₀] at hclaim
    cases hclaim
    rw [if_pos (h.index _ hawaits)] at hrun
    cases hrun
    rintro ⟨_, _, _, hleaves⟩
    exact hleaves trivial
  case releasing newBuffer =>
    cases hrun
    rintro ⟨_, _, hclaim', _⟩
    cases hclaim'

theorem Smooth.stalled_run (h : s.Smooth) (hstalled : s.Stalled)
    (hsilent : s.listener.pc ≠ .building) (hrun : s.run = some s') :
    s'.Stalled := by
  obtain ⟨taken, hawaits, hclaim, hpc⟩ := hstalled
  have hlistener := h.listener
  have hstarted : ¬ s.listener.pc.Claims := by
    intro hpc
    rw [(h.notStarted hpc).1] at hawaits
    exact hawaits
  cases hpc₀ : s.listener.pc
  all_goals rw [hpc₀] at hpc hlistener hstarted
  all_goals rw [Listener.claim, hpc₀] at hclaim
  all_goals cases hclaim
  all_goals simp only [Session.run, hpc₀, reduceCtorEq] at hrun
  case startingAnnouncer => exact absurd trivial hstarted
  case withdrawing => exact (hlistener.elim id (Or.elim · id id)).elim
  case loadingBuffer | releasing => exact absurd trivial hpc
  case building => exact absurd hpc₀ hsilent
  case launching i =>
    split at hrun <;> cases hrun <;> exact ⟨_, hawaits, rfl, id⟩
  case checkingFlag =>
    rw [h.calm] at hrun
    cases hrun
    exact ⟨_, hawaits, rfl, id⟩
  all_goals
    cases hrun
    exact ⟨_, hawaits, rfl, id⟩

theorem Smooth.stalled_recalculate (h : s.Smooth) (hstalled : s.Stalled)
    (hrec : s.recalculate = some s') : s'.Stalled := by
  obtain ⟨taken, hawaits, hclaim, hpc⟩ := hstalled
  obtain ⟨hlistener, -⟩ := recalculate_frame hrec
  refine ⟨taken, ?_, hlistener ▸ hclaim, hlistener ▸ hpc⟩
  cases hcalc : s.calculator
  all_goals rw [hcalc] at hawaits
  all_goals first | exact hawaits.elim | skip
  all_goals simp only [Session.recalculate, hcalc] at hrec
  case exchanged b =>
    cases hrec
    exact hawaits
  case awaitingWriters b =>
    -- the buffer is still claimed
    have hcount : s.bufferWriterCount b ≠ 0 := by
      rw [show b = taken from hawaits, h.ordered.writers, if_pos hclaim]
      exact one_ne_zero
    rw [if_pos hcount] at hrec
    cases hrec
    rw [hcalc]
    exact hawaits

/-- **Where it is held up**, it stays so. -/
theorem Smooth.stalled_step (h : s.Smooth) (hstalled : s.Stalled)
    {a : SessionStep dm n} (hC : s.Silent a) (hstep : s.step a = some s') :
    s'.Stalled := by
  cases a with
  | listener => exact h.stalled_run hstalled hC hstep
  | dispatch second msg =>
      obtain ⟨taken, hawaits, hclaim, -⟩ := hstalled
      obtain ⟨hpc, hs'⟩ := Option.ite_none_right_eq_some.mp hstep
      cases hs'
      rw [Listener.claim, hpc] at hclaim
      exact ⟨taken, hawaits, hclaim, id⟩
  | listenerThrows => exact hC.elim
  | calculator => exact h.stalled_recalculate hstalled hstep
  | announcerStops =>
      obtain ⟨taken, hawaits, -⟩ := hstalled
      obtain ⟨⟨hcalc, -⟩, -⟩ := Option.ite_none_right_eq_some.mp hstep
      rw [hcalc] at hawaits
      exact hawaits.elim
  | worker w action =>
      obtain ⟨⟨sync, pc⟩, -, hs'⟩ := Option.map_eq_some_iff.mp hstep
      cases hs'
      exact hstalled
  | signalError => exact hC.elim

end Session

end RatingService
