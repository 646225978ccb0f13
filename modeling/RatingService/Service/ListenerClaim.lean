import RatingService.Ipc.Transport
import RatingService.Service.ReaderExclusion

/-!
# The listener's claim

One turn of the outer loop of `Overseer::run`: the infrastructure is
constructed, the transport launched, and only then a buffer claimed. All three
handlers release `inData`, which is null before the claim; the end of the
message loop releases nothing.

- §1: the iteration.
- §2: claims and releases.
- §3: exactly which iterations release what they claimed.
- §4: a rejected handshake, and a flag set by another thread.
-/

namespace RatingService

open Runs

variable {dm : DataModel} {n : ℕ}

/-! ## §1  The iteration -/

/-- Where an iteration is. `count` is the reader count the iteration before has
left. -/
inductive Iteration (dm : DataModel) (n : ℕ) where
  | constructing (count : ℤ)
  | launching (count : ℤ)
  /-- in a `catch`, at the decrement, with `inData` still null -/
  | caughtUnclaimed
  /-- the decrement went through the null pointer -/
  | nullDereferenced
  /-- from the claim on; how often each buffer's count was incremented and
  decremented -/
  | session (s : Session dm n) (increments decrements : Fin 2 → ℕ)

inductive IterationStep (dm : DataModel) (n : ℕ) where
  | construct (throws : Bool)
  /-- `init` fails before anybody connects -/
  | initThrows
  /-- `launch` on a client's bytes -/
  | launch (bytes : BufferT)
  | decrement
  | thread (a : SessionStep dm n)

namespace Session

def increments (s : Session dm n) : SessionStep dm n → Fin 2 → ℕ
  | .listener, i =>
      match s.listener.pc with
      | .claimed => if i = s.listener.inData then 1 else 0
      | .claimingNew newBuffer => if i = newBuffer then 1 else 0
      | _ => 0
  | _, _ => 0

def decrements (s : Session dm n) : SessionStep dm n → Fin 2 → ℕ
  | .listener, i =>
      match s.listener.pc with
      | .releasing _ | .withdrawing => if i = s.listener.inData then 1 else 0
      | _ => 0
  | _, _ => 0

end Session

namespace Iteration

def step : Iteration dm n → IterationStep dm n → Option (Iteration dm n)
  | .constructing count, .construct throws =>
      some (if throws then .caughtUnclaimed else .launching count)
  | .launching _, .initThrows => some .caughtUnclaimed
  | .launching count, .launch bytes =>
      match (RatingService.launch bytes).1 with
      | .ok _ => some (.session (.start dm n count) (fun _ => 0) fun _ => 0)
      | .error _ => some .caughtUnclaimed
  | .caughtUnclaimed, .decrement => some .nullDereferenced
  | .session s increments decrements, .thread a =>
      (s.step a).map fun s' => .session s'
        (fun i => increments i + s.increments a i)
        fun i => decrements i + s.decrements a i
  | _, _ => none

def machine (dm : DataModel) (n : ℕ) :
    Machine (Iteration dm n) (IterationStep dm n) where
  init it := ∃ count, it = .constructing count
  step := step

/-! ## §2  Claims and releases -/

/-- At `m_pluggable.reset`, or crashed on the way there. -/
def Ended : Iteration dm n → Prop
  | .nullDereferenced => True
  | .session s _ _ => s.listener.pc = .errorHandled ∨ s.listener.pc = .loopEnded
  | _ => False

/-- No decrement went through a null pointer, and each buffer was released as
often as it was claimed. -/
def Released : Iteration dm n → Prop
  | .caughtUnclaimed | .nullDereferenced => False
  | .session _ increments decrements => decrements = increments
  | _ => True

/-- A calculator that waits for the writers of a buffer goes on with his next
step. -/
def LetsGo : Iteration dm n → Prop
  | .session s _ _ => ∀ taken, s.calculator = .awaitingWriters taken →
      ∃ s', s.recalculate = some s' ∧ s'.calculator = .awaitingReaders taken
  | _ => True

/-- The listener is at the head of its loop, and `badFlag` is set. -/
def FindsFlag : Iteration dm n → Prop
  | .session s _ _ => s.listener.pc = .checkingFlag ∧ s.sync.badFlag = true
  | _ => False

/-- Nothing throws before the claim, and the listener does not find `badFlag`
set at the head of its loop. -/
def LeavesByException (it : Iteration dm n) : IterationStep dm n → Prop
  | .construct throws => throws = false
  | .initThrows => False
  | .launch bytes => (RatingService.launch bytes).1.isOk = true
  | .thread .listener => ¬ it.FindsFlag
  | _ => True

end Iteration

namespace Session

variable {s s' : Session dm n}

/-- **The counts** move with the increments and decrements. -/
theorem bufferWriterCount_step {a : SessionStep dm n}
    (hstep : s.step a = some s') (i : Fin 2) :
    s'.bufferWriterCount i =
      s.bufferWriterCount i + s.increments a i - s.decrements a i := by
  have hsame : s'.bufferWriterCount = s.bufferWriterCount →
      s.increments a i = 0 → s.decrements a i = 0 →
      s'.bufferWriterCount i =
        s.bufferWriterCount i + s.increments a i - s.decrements a i := by
    intro hcount hinc hdec
    rw [hcount, hinc, hdec]
    omega
  have hwriter : ∀ j : Fin 2, ∀ change : ℤ,
      (s.addWriter j change).bufferWriterCount i =
        s.bufferWriterCount i + if i = j then change else 0 := by
    intro j change
    split
    · next hi => rw [hi, addWriter_self]
    · next hi => rw [addWriter_of_ne s hi, add_zero]
  cases a with
  | listener =>
      replace hstep : s.run = some s' := hstep
      cases hpc : s.listener.pc
      all_goals simp only [Session.run, hpc, reduceCtorEq] at hstep
      case claimed =>
        cases hstep
        refine (hwriter s.listener.inData 1).trans ?_
        simp only [increments, decrements, hpc]
        split <;> omega
      case claimingNew newBuffer =>
        cases hstep
        refine (hwriter newBuffer 1).trans ?_
        simp only [increments, decrements, hpc]
        split <;> omega
      case releasing newBuffer =>
        cases hstep
        refine (hwriter s.listener.inData (-1)).trans ?_
        simp only [increments, decrements, hpc]
        split <;> omega
      case withdrawing =>
        cases hstep
        refine (hwriter s.listener.inData (-1)).trans ?_
        simp only [increments, decrements, hpc]
        split <;> omega
      all_goals try split at hstep
      all_goals
        cases hstep
        refine hsame rfl ?_ ?_ <;> simp only [increments, decrements, hpc]
  | dispatch second msg =>
      obtain ⟨-, hs'⟩ := Option.ite_none_right_eq_some.mp hstep
      cases hs'
      exact hsame rfl rfl rfl
  | listenerThrows =>
      obtain ⟨-, hs'⟩ := Option.ite_none_right_eq_some.mp hstep
      cases hs'
      exact hsame rfl rfl rfl
  | calculator =>
      obtain ⟨-, -, hcount, -⟩ := recalculate_frame hstep
      exact hsame hcount rfl rfl
  | announcerStops =>
      obtain ⟨-, hs'⟩ := Option.ite_none_right_eq_some.mp hstep
      cases hs'
      exact hsame rfl rfl rfl
  | worker w action =>
      obtain ⟨⟨sync, pc⟩, -, hs'⟩ := Option.map_eq_some_iff.mp hstep
      cases hs'
      exact hsame rfl rfl rfl
  | signalError =>
      cases hstep
      exact hsame rfl rfl rfl

theorem loopEnded_step {a : SessionStep dm n} (hstep : s.step a = some s')
    (hpc' : s'.listener.pc = .loopEnded) :
    s.listener.pc = .loopEnded ∨ a = .listener ∧
      s.listener.pc = .checkingFlag ∧ s.sync.badFlag = true := by
  cases a with
  | listener =>
      replace hstep : s.run = some s' := hstep
      cases hpc : s.listener.pc
      all_goals simp only [Session.run, hpc, reduceCtorEq] at hstep
      case checkingFlag =>
        cases hstep
        cases hflag : s.sync.badFlag with
        | true => exact .inr ⟨rfl, rfl, rfl⟩
        | false =>
            rw [hflag] at hpc'
            cases hpc'
      all_goals try split at hstep
      all_goals
        cases hstep
        cases hpc'
  | dispatch second msg =>
      obtain ⟨-, hs'⟩ := Option.ite_none_right_eq_some.mp hstep
      cases hs'
      cases hpc'
  | listenerThrows =>
      obtain ⟨-, hs'⟩ := Option.ite_none_right_eq_some.mp hstep
      cases hs'
      cases hpc'
  | calculator =>
      obtain ⟨hlistener, -, -, -⟩ := recalculate_frame hstep
      exact .inl (hlistener ▸ hpc')
  | announcerStops =>
      obtain ⟨-, hs'⟩ := Option.ite_none_right_eq_some.mp hstep
      cases hs'
      exact .inl hpc'
  | worker w action =>
      obtain ⟨⟨sync, pc⟩, -, hs'⟩ := Option.map_eq_some_iff.mp hstep
      cases hs'
      exact .inl hpc'
  | signalError =>
      cases hstep
      exact .inl hpc'

theorem loopEnded_stays {a : SessionStep dm n} (hstep : s.step a = some s')
    (hpc : s.listener.pc = .loopEnded) : s'.listener.pc = .loopEnded := by
  cases a with
  | listener => simp only [Session.step, Session.run, hpc, reduceCtorEq] at hstep
  | dispatch second msg =>
      obtain ⟨hpc₀, -⟩ := Option.ite_none_right_eq_some.mp hstep
      cases hpc.symm.trans hpc₀
  | listenerThrows =>
      obtain ⟨hthrow, -⟩ := Option.ite_none_right_eq_some.mp hstep
      rw [hpc] at hthrow
      exact hthrow.elim
  | calculator =>
      obtain ⟨hlistener, -, -, -⟩ := recalculate_frame hstep
      exact hlistener ▸ hpc
  | announcerStops =>
      obtain ⟨-, hs'⟩ := Option.ite_none_right_eq_some.mp hstep
      cases hs'
      exact hpc
  | worker w action =>
      obtain ⟨⟨sync, pc⟩, -, hs'⟩ := Option.map_eq_some_iff.mp hstep
      cases hs'
      exact hpc
  | signalError =>
      cases hstep
      exact hpc

end Session

namespace Iteration

variable {it it' : Iteration dm n}

/-! ## §3  All iterations -/

/-- The counts of a session are what was claimed and not released. -/
def Counted : Iteration dm n → Prop
  | .session s increments decrements => s.WritersCounted ∧
      ∀ i, s.bufferWriterCount i = (increments i : ℤ) - decrements i
  | _ => True

def Strayed : Iteration dm n → Prop
  | .caughtUnclaimed | .nullDereferenced => True
  | .session s _ _ => s.listener.pc = .loopEnded
  | _ => False

theorem Counted.step {a : IterationStep dm n} (h : it.Counted)
    (hstep : it.step a = some it') : it'.Counted := by
  unfold Iteration.step at hstep
  split at hstep
  · split at hstep <;> cases hstep <;> trivial
  · cases hstep
    trivial
  · split at hstep <;> cases hstep
    · exact ⟨Session.writersCounted_start _, fun _ => rfl⟩
    · trivial
  · cases hstep
    trivial
  · obtain ⟨s', hs', hit⟩ := Option.map_eq_some_iff.mp hstep
    cases hit
    refine ⟨h.1.step hs', fun i => ?_⟩
    have hcount := h.2 i
    rw [Session.bufferWriterCount_step hs', hcount]
    simp only [Nat.cast_add]
    omega
  · cases hstep

/-- **One step** either meets the condition and does not stray, or strays. -/
theorem strayed_step {a : IterationStep dm n} (h : ¬ it.Strayed)
    (hstep : it.step a = some it') :
    it.LeavesByException a ↔ ¬ it'.Strayed := by
  unfold Iteration.step at hstep
  split at hstep
  · next throws =>
    cases hstep
    cases throws
    · exact iff_of_true rfl id
    · exact iff_of_false nofun fun h' => h' trivial
  · cases hstep
    exact iff_of_false id fun h' => h' trivial
  · split at hstep <;> next hlaunch =>
      cases hstep
      rw [LeavesByException, hlaunch]
      first
        | exact iff_of_true rfl nofun
        | exact iff_of_false nofun fun h' => h' trivial
  · exact absurd trivial h
  · next s increments decrements a =>
    obtain ⟨s', hs', hit⟩ := Option.map_eq_some_iff.mp hstep
    cases hit
    constructor
    · intro hC hended
      rcases Session.loopEnded_step hs' hended with hpc | ⟨rfl, hbad⟩
      · exact h hpc
      · exact hC hbad
    · intro hkept
      cases a with
      | listener =>
          rintro ⟨hpc, hflag⟩
          refine hkept ?_
          simp only [Session.step, Session.run, hpc] at hs'
          cases hs'
          show (if s.sync.badFlag then ListenerPc.loopEnded else .building) = _
          rw [if_pos hflag]
      | dispatch | listenerThrows | calculator | announcerStops | worker
      | signalError => trivial
  · cases hstep

theorem Strayed.step {a : IterationStep dm n} (h : it.Strayed)
    (hstep : it.step a = some it') : it'.Strayed := by
  unfold Iteration.step at hstep
  split at hstep
  · exact h.elim
  · exact h.elim
  · exact h.elim
  · cases hstep
    trivial
  · obtain ⟨s', hs', hit⟩ := Option.map_eq_some_iff.mp hstep
    cases hit
    exact Session.loopEnded_stays hs' h
  · cases hstep

theorem counted {steps : List (IterationStep dm n)}
    (hrun : (machine dm n).Run (fun _ _ => True) steps it) : it.Counted := by
  apply hrun.invariant
  · rintro _ ⟨count, rfl⟩
    trivial
  · exact fun it a it' h _ hstep => h.step hstep

/-- A run strays exactly if one of its steps does not meet the condition. -/
theorem strayed_iff {steps : List (IterationStep dm n)}
    (hrun : (machine dm n).Run (fun _ _ => True) steps it) :
    ¬ it.Strayed ↔ (machine dm n).Run LeavesByException steps it := by
  constructor
  · intro h
    induction hrun with
    | init hinit => exact .init hinit
    | @step steps it it' a hrun _ hstep ih =>
        have hbefore : ¬ it.Strayed := fun hstrayed => h (hstrayed.step hstep)
        exact .step (ih hbefore) ((strayed_step hbefore hstep).mpr h) hstep
  · intro h
    apply h.invariant
    · rintro _ ⟨count, rfl⟩
      exact id
    · exact fun it a it' hbefore hC hstep => (strayed_step hbefore hstep).mp hC

/-- An iteration that is at its end has released its claim, unless it has
strayed: there it has claimed a buffer once more than released it. -/
theorem released_iff_strayed (hcounted : it.Counted) (hended : it.Ended) :
    it.Released ↔ ¬ it.Strayed := by
  cases it with
  | constructing | launching | caughtUnclaimed => exact hended.elim
  | nullDereferenced => exact iff_of_false id fun h => h trivial
  | session s increments decrements =>
      obtain ⟨hwriters, hcount⟩ := hcounted
      constructor
      · intro hreleased hpc
        have hone : s.bufferWriterCount s.listener.inData = 1 := by
          rw [hwriters, Listener.claim, show s.listener.pc = _ from hpc,
            if_pos rfl]
        rw [hcount, show decrements = increments from hreleased] at hone
        omega
      · intro hpc
        have hpc' : s.listener.pc = .errorHandled := hended.resolve_right hpc
        funext i
        have hzero : s.bufferWriterCount i = 0 := by
          rw [hwriters, Listener.claim, hpc', if_neg (Option.some_ne_none i).symm]
        rw [hcount] at hzero
        omega

/-- A calculator is not left waiting for a buffer that was not released. -/
theorem released_letsGo (hcounted : it.Counted) (hended : it.Ended)
    (hstrayed : ¬ it.Strayed) : it.LetsGo := by
  cases it with
  | constructing | launching | caughtUnclaimed | nullDereferenced => trivial
  | session s increments decrements =>
      intro taken hcalc
      have hpc : s.listener.pc = .errorHandled := hended.resolve_right hstrayed
      have hzero : s.bufferWriterCount taken = 0 := by
        rw [hcounted.1, Listener.claim, hpc,
          if_neg (Option.some_ne_none taken).symm]
      refine ⟨{ s with
        calculator := .awaitingReaders taken
        log := s.log ++ [.take taken] }, ?_, rfl⟩
      rw [Session.recalculate, hcalc]
      exact if_neg (not_not.mpr hzero)

/-- **Exactly which iterations release what they claimed**: those that nothing
ends before the claim, and that then end by an exception. Behind such an end
the calculator waits for no buffer. -/
theorem released_iff {steps : List (IterationStep dm n)}
    (hrun : (machine dm n).Run (fun _ _ => True) steps it)
    (hended : it.Ended) :
    (it.Released ↔ (machine dm n).Run LeavesByException steps it) ∧
      ((machine dm n).Run LeavesByException steps it → it.LetsGo) := by
  have hcounted := counted hrun
  have hstrayed := strayed_iff hrun
  exact ⟨(released_iff_strayed hcounted hended).trans hstrayed,
    fun hleft => released_letsGo hcounted hended (hstrayed.mpr hleft)⟩

/-! ## §4  Three iterations -/

instance (it : Iteration dm n) : Decidable it.FindsFlag := by
  cases it <;> unfold FindsFlag <;> infer_instance

instance (it : Iteration dm n) (a : IterationStep dm n) :
    Decidable (it.LeavesByException a) :=
  match a with
  | .construct _ | .launch _ => inferInstanceAs (Decidable (_ = _))
  | .initThrows => .isFalse id
  | .thread .listener => inferInstanceAs (Decidable (¬ _))
  | .thread (.dispatch _ _) | .thread .listenerThrows | .thread .calculator
  | .thread .announcerStops | .thread (.worker _ _) | .thread .signalError
  | .decrement => .isTrue trivial

theorem init_constructing : (machine dm n).init (.constructing 0) := ⟨0, rfl⟩

def accepted (steps : List (SessionStep .lp64 1)) :
    List (IterationStep .lp64 1) :=
  [.construct false, .launch clientLaunch] ++ steps.map .thread

/-- The client closes the connection after the buffers were exchanged twice;
the calculator waits for the buffer the listener has claimed. -/
def disconnected : List (IterationStep .lp64 1) :=
  accepted (Session.opening ++ List.replicate 2 .calculator ++
    Session.message true ++ List.replicate 6 (.worker 0 .proceed) ++
    List.replicate 16 .calculator ++
    [.listener, .listenerThrows, .listener, .listener])

theorem disconnected_released :
    ∃ s increments decrements, (machine .lp64 1).schedule (.constructing 0)
        disconnected = some (.session s increments decrements) ∧
      (session s increments decrements).Released ∧
      s.calculator = .awaitingWriters 1 ∧
      ∃ s', s.recalculate = some s' ∧ s'.calculator = .awaitingReaders 1 := by
  obtain ⟨s, increments, decrements, hit, hcalc⟩ : ∃ s increments decrements,
      (machine .lp64 1).schedule (.constructing 0) disconnected =
        some (.session s increments decrements) ∧
      s.calculator = .awaitingWriters 1 := ⟨_, _, _, rfl, rfl⟩
  have hended : (session s increments decrements).Ended := by
    cases hit
    exact .inl rfl
  have hrun := Machine.run_of_schedule (C := LeavesByException) disconnected
    init_constructing (by decide) hit
  obtain ⟨hreleased, hgoes⟩ := released_iff (Machine.run_of_schedule _
    init_constructing (Machine.along_true _ _) hit) hended
  exact ⟨s, increments, decrements, hit, hreleased.mpr hrun, hcalc,
    hgoes hrun 1 hcalc⟩

def rejected : List (IterationStep .lp64 1) :=
  [.construct false, .launch [3, 0, 1], .decrement]

/-- Another thread signals an error; the calculator waits for the buffer. -/
def flagged : List (IterationStep .lp64 1) :=
  accepted (Session.opening ++
    [.signalError, .listener, .calculator, .calculator])

theorem rejected_flagged_unreleased :
    (machine .lp64 1).Reachable .nullDereferenced ∧
      ∃ s increments decrements,
        (machine .lp64 1).Reachable (.session s increments decrements) ∧
        s.listener.pc = .loopEnded ∧ increments 0 = 1 ∧ decrements 0 = 0 ∧
        ¬ (session s increments decrements).Released ∧
        s.calculator = .awaitingWriters 0 ∧ s.recalculate = some s := by
  refine ⟨Machine.reachable_of_schedule rejected init_constructing rfl, _, _, _,
    Machine.reachable_of_schedule flagged init_constructing rfl, rfl, rfl, rfl,
    ?_, rfl, rfl⟩
  intro hreleased
  exact absurd (congrFun hreleased 0) (by decide)

end Iteration

end RatingService
