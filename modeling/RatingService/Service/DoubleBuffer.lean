import RatingService.Service.StartOrder

/-!
# The double buffer

The listener fills one buffer while the calculator works on the other. The
listener loads the pointer, and only some steps later it counts itself as a
writer; a further exchange of the buffers may come in between, and then it
claims the buffer the calculator is at work on.

- §1: a batch put together stage by stage.
- §2: the invariant.
- §3: runs in which the listener is never overtaken so, and a run in which it
  is.
-/

namespace RatingService

open Runs Handover

variable {dm : DataModel} {n : ℕ}

/-! ## §1  Batches -/

namespace Stage

/-- The part of a buffer that is read before a stage. -/
def done (buffer : IncomingDataBuffer dm) : Stage → IncomingDataBuffer dm
  | .registrations => {}
  | .renames => { usersRegistered := buffer.usersRegistered }
  | .connectionChanges => { buffer with connectionChanges := ∅, dealsWon := ∅ }
  | .deals => { buffer with dealsWon := ∅ }

/-- The part of a buffer that is not cleared before a stage. -/
def rest (buffer : IncomingDataBuffer dm) : Stage → IncomingDataBuffer dm
  | .registrations => buffer
  | .renames => { buffer with usersRegistered := ∅ }
  | .connectionChanges =>
      { buffer with usersRegistered := ∅, usersRenamed := ∅ }
  | .deals => { dealsWon := buffer.dealsWon }

def doneAfter (buffer : IncomingDataBuffer dm) (stage : Stage) :
    IncomingDataBuffer dm :=
  (stage.next).elim buffer (done buffer)

theorem copy_rest (buffer : IncomingDataBuffer dm) (stage : Stage) :
    stage.copy (done buffer stage) (rest buffer stage) =
      doneAfter buffer stage := by
  cases stage <;> rfl

theorem clear_rest (buffer : IncomingDataBuffer dm) (stage : Stage) :
    clear (rest buffer stage) stage =
      (stage.next).elim {} (rest buffer) := by
  cases stage <;> rfl

end Stage

/-! ## §2  The invariant -/

/-- Past the wait for the buffer's writers, and not through with clearing
it. -/
def CalculatorPc.Holds (taken : Fin 2) : CalculatorPc → Prop
  | .awaitingReaders b | .reading b _ | .clearing b _ => b = taken
  | _ => False

/-- At work on the buffer's maps. -/
def CalculatorPc.Processes (taken : Fin 2) : CalculatorPc → Prop
  | .reading b _ | .clearing b _ => b = taken
  | _ => False

namespace Session

/-- The listener does not count itself as a writer of a buffer that the
calculator has taken and not cleared yet. -/
def NotOvertaken (s : Session dm n) : SessionStep dm n → Prop
  | .listener => ∀ newBuffer, s.listener.pc = .claimingNew newBuffer →
      ¬ s.calculator.Holds newBuffer
  | _ => True

/-- How far the recalculation is with `buffer`, which it has taken. -/
def Progress (s : Session dm n) (taken : Fin 2)
    (buffer : IncomingDataBuffer dm) : Prop :=
  match s.calculator with
  | .awaitingReaders b => b = taken ∧ s.buffer taken = buffer
  | .reading b stage => b = taken ∧ s.batch = stage.done buffer ∧
      s.buffer taken = stage.rest buffer
  | .clearing b stage => b = taken ∧ s.batch = stage.doneAfter buffer ∧
      s.buffer taken = stage.rest buffer
  | _ => False

/-- **The contents**: a buffer holds what is owed for it, unless the
calculator has taken it; the finished recalculations have read what was due to
them. -/
inductive Contents (s : Session dm n) : Prop
  | free (hcalc : ∀ i, ¬ s.calculator.Holds i)
      (hbuffers : ∀ i, s.buffer i = dispatchAll (owed s.log i))
      (hbatches : s.batches =
        (List.range (takes s.log)).map fun k => dispatchAll (due s.log k))
  | held (taken : Fin 2) (k : ℕ) (htakes : takes s.log = k + 1)
      (howed : owed s.log taken = [])
      (hprogress : s.Progress taken (dispatchAll (due s.log k)))
      (hbuffers : ∀ i, i ≠ taken → s.buffer i = dispatchAll (owed s.log i))
      (hbatches : s.batches =
        (List.range k).map fun k => dispatchAll (due s.log k))

/-- **The invariant.** -/
structure Buffered (s : Session dm n) : Prop where
  ordered : s.Ordered
  excluded : ∀ i, s.listener.claim = some i → ¬ s.calculator.Holds i
  target : s.listener.pc ≠ .settingBuffer →
    s.listener.dispatcherBuffer = s.listener.inData
  contents : s.Contents

variable {s s' : Session dm n}

theorem buffered_start (count : ℤ) : (start dm n count).Buffered where
  ordered := ordered_start count
  excluded := fun _ _ => id
  target := fun _ => rfl
  contents := .free (fun _ => id) (fun _ => rfl) rfl

theorem Progress.congr {taken : Fin 2} {buffer : IncomingDataBuffer dm}
    (h : s.Progress taken buffer) (hcalc : s'.calculator = s.calculator)
    (hbuffer : s'.buffer taken = s.buffer taken)
    (hbatch : s'.batch = s.batch) : s'.Progress taken buffer := by
  rw [Progress, hcalc, hbuffer, hbatch]
  exact h

theorem Contents.frame (h : s.Contents) (hcalc : s'.calculator = s.calculator)
    (hdata : s'.incomingData.buffers = s.incomingData.buffers)
    (hbatch : s'.batch = s.batch) (hbatches : s'.batches = s.batches)
    (hlog : s'.log = s.log) : s'.Contents := by
  have hbuffer : ∀ i, s'.buffer i = s.buffer i := fun i => congrFun hdata i
  cases h with
  | free hfree hbuffers hread =>
      refine .free (hcalc ▸ hfree) ?_ ?_
      · intro i
        rw [hbuffer, hlog]
        exact hbuffers i
      · rw [hbatches, hlog]
        exact hread
  | held taken k htakes howed hprogress hbuffers hread =>
      refine .held taken k (hlog ▸ htakes) (hlog ▸ howed) ?_ ?_ ?_
      · rw [hlog]
        exact hprogress.congr hcalc (hbuffer taken) hbatch
      · intro i hi
        rw [hbuffer, hlog]
        exact hbuffers i hi
      · rw [hbatches, hlog]
        exact hread

theorem Progress.holds {taken : Fin 2} {buffer : IncomingDataBuffer dm}
    (h : s.Progress taken buffer) : s.calculator.Holds taken := by
  rw [Progress] at h
  cases hcalc : s.calculator <;> rw [hcalc] at h
  all_goals first | exact h.1 | exact h

/-- A take moves the slot's debt to a new batch. -/
theorem due_take_range (log : List (SessionEvent dm)) (slot : Fin 2) :
    (List.range (takes log)).map (fun k => dispatchAll (due log k)) =
      (List.range (takes log)).map
        fun k => dispatchAll (due (log ++ [.take slot]) k) := by
  refine List.map_congr_left fun k hk => ?_
  rw [due_take, if_neg (Nat.ne_of_lt (List.mem_range.mp hk))]

/-- **A dispatch** into a buffer the calculator has not taken. -/
theorem Contents.dispatch (h : s.Contents) {second : Fin 60}
    {msg : ClientMessage dm}
    (hfree : ¬ s.calculator.Holds s.listener.dispatcherBuffer)
    (hdispatch : s.dispatch second msg = some s') : s'.Contents := by
  obtain ⟨-, hs'⟩ := Option.ite_none_right_eq_some.mp hdispatch
  cases hs'
  have hother : ∀ i, i ≠ s.listener.dispatcherBuffer →
      (s.incomingData.setBuffer s.listener.dispatcherBuffer
        ((s.buffer s.listener.dispatcherBuffer).record second msg)).buffers i =
        s.buffer i := fun i hi => Function.update_of_ne hi _ _
  have hself : (s.incomingData.setBuffer s.listener.dispatcherBuffer
      ((s.buffer s.listener.dispatcherBuffer).record second msg)).buffers
        s.listener.dispatcherBuffer =
      (s.buffer s.listener.dispatcherBuffer).record second msg :=
    Function.update_self _ _ _
  -- the buffer and what is owed for it grow by the same message
  have hbuffer : ∀ i, s.buffer i = dispatchAll (owed s.log i) →
      (s.incomingData.setBuffer s.listener.dispatcherBuffer
        ((s.buffer s.listener.dispatcherBuffer).record second msg)).buffers i =
      dispatchAll (owed (s.log ++
        [.put s.listener.dispatcherBuffer (second, msg)]) i) := by
    intro i hi
    rw [owed_put]
    by_cases hb : s.listener.dispatcherBuffer = i
    · subst hb
      rw [hself, if_pos rfl, dispatchAll_append, hi]
    · rw [hother i (Ne.symm hb), if_neg hb, hi]
  cases h with
  | free hcalc hbuffers hbatches =>
      refine .free hcalc (fun i => hbuffer i (hbuffers i)) ?_
      simp only [atPc, takes_put, due_put]
      exact hbatches
  | held taken k htakes howed hprogress hbuffers hbatches =>
      have hne : taken ≠ s.listener.dispatcherBuffer := by
        rintro rfl
        exact hfree hprogress.holds
      refine .held taken k ?_ ?_ ?_ ?_ ?_
      · exact takes_put.trans htakes
      · rw [atPc, owed_put, if_neg hne.symm, howed]
      · simp only [atPc, due_put]
        exact hprogress.congr rfl (hother taken hne) rfl
      · exact fun i hi => hbuffer i (hbuffers i hi)
      · simp only [atPc, due_put]
        exact hbatches

/-- **The calculator's steps** take a buffer, read it map by map and leave it
empty. -/
theorem Contents.recalculate (h : s.Contents)
    (hrec : s.recalculate = some s') : s'.Contents := by
  cases h with
  | free hcalc hbuffers hbatches =>
      cases hpc : s.calculator
      all_goals rw [hpc] at hcalc
      all_goals simp only [Session.recalculate, hpc, reduceCtorEq] at hrec
      case awaitingWriters taken =>
        split at hrec
        · cases hrec
          exact .free (hpc ▸ hcalc) hbuffers hbatches
        · cases hrec
          refine .held taken (takes s.log) takes_take ?_ ?_ ?_ ?_
          · rw [owed_take, if_pos rfl]
          · refine ⟨rfl, ?_⟩
            rw [due_take, if_pos rfl]
            exact hbuffers taken
          · intro i hi
            rw [owed_take, if_neg hi.symm]
            exact hbuffers i
          · exact hbatches.trans (due_take_range s.log taken)
      case awaitingReaders taken => exact absurd rfl (hcalc taken)
      case reading taken stage => exact absurd rfl (hcalc taken)
      case clearing taken stage => exact absurd rfl (hcalc taken)
      case locking =>
        split at hrec
        · cases hrec
        · cases hrec
          exact .free (fun _ => id) hbuffers hbatches
      all_goals
        cases hrec
        exact .free (fun _ => id) hbuffers hbatches
  | held taken k htakes howed hprogress hbuffers hbatches =>
      rw [Progress] at hprogress
      cases hpc : s.calculator
      all_goals rw [hpc] at hprogress
      all_goals first | exact hprogress.elim | skip
      all_goals simp only [Session.recalculate, hpc] at hrec
      case awaitingReaders b =>
        obtain ⟨rfl, hbuffer⟩ := hprogress
        split at hrec
        · cases hrec
          refine .held b k htakes howed ?_ hbuffers hbatches
          rw [Progress, hpc]
          exact ⟨rfl, hbuffer⟩
        · cases hrec
          exact .held b k htakes howed ⟨rfl, rfl, hbuffer⟩ hbuffers hbatches
      case reading b stage =>
        obtain ⟨rfl, hbatch, hbuffer⟩ := hprogress
        cases hrec
        refine .held b k htakes howed ⟨rfl, ?_, hbuffer⟩ hbuffers hbatches
        rw [hbatch, hbuffer, Stage.copy_rest]
      case clearing b stage =>
        obtain ⟨rfl, hbatch, hbuffer⟩ := hprogress
        have hself : (s.incomingData.setBuffer b
            (stage.clear (s.buffer b))).buffers b =
              (stage.next).elim {} (Stage.rest (dispatchAll (due s.log k))) := by
          rw [← Stage.clear_rest, ← hbuffer]
          exact Function.update_self _ _ _
        have hother : ∀ i, i ≠ b → (s.incomingData.setBuffer b
            (stage.clear (s.buffer b))).buffers i =
              dispatchAll (owed s.log i) := fun i hi =>
          (Function.update_of_ne hi _ _).trans (hbuffers i hi)
        rw [Stage.doneAfter] at hbatch
        cases hnext : stage.next with
        | some next =>
            rw [hnext] at hrec hself hbatch
            cases hrec
            exact .held b k htakes howed ⟨rfl, hbatch, hself⟩ hother hbatches
        | none =>
            rw [hnext] at hrec hself hbatch
            cases hrec
            refine .free (fun _ => id) ?_ ?_
            · intro i
              by_cases hi : i = b
              · subst hi
                rw [howed]
                exact hself
              · exact hother i hi
            · show s.batches ++ [s.batch] = _
              rw [hbatches, hbatch, htakes, List.range_succ, List.map_append]
              rfl

/-- The listener's steps claim a buffer only where the calculator has not
taken it. -/
theorem excluded_run (h : s.Buffered) (hC : s.NotOvertaken .listener)
    (hrun : s.run = some s') (i : Fin 2) (hclaim : s'.listener.claim = some i) :
    ¬ s'.calculator.Holds i := by
  have hold := h.excluded
  cases hpc : s.listener.pc
  all_goals simp only [Session.run, hpc, reduceCtorEq] at hrun
  case claimed =>
    cases hrun
    cases h.ordered.phase with
    | idle _ hcalc =>
        show ¬ s.calculator.Holds i
        rw [hcalc]
        exact id
    | starting hpc₀ => cases hpc.symm.trans hpc₀
    | counting hpc₀ =>
        rw [hpc] at hpc₀
        exact hpc₀.elim
  case claimingNew newBuffer =>
    cases hrun
    cases hclaim
    exact hC newBuffer hpc
  case startingAnnouncer =>
    cases hrun
    exact id
  case checkingFlag =>
    cases hrun
    refine hold i ?_
    cases hflag : s.sync.badFlag <;>
      simpa [Listener.claim, atPc, hpc, hflag] using hclaim
  all_goals try split at hrun
  all_goals cases hrun
  all_goals first
    | cases hclaim; done
    | exact hold i (by simpa [Listener.claim, atPc, hpc] using hclaim)

theorem target_run (h : s.Buffered) (hrun : s.run = some s')
    (hpc' : s'.listener.pc ≠ .settingBuffer) :
    s'.listener.dispatcherBuffer = s'.listener.inData := by
  have hold := h.target
  cases hpc : s.listener.pc
  all_goals rw [hpc] at hold
  all_goals simp only [Session.run, hpc, reduceCtorEq] at hrun
  case claiming =>
    cases hrun
    cases h.ordered.phase with
    | idle _ _ hindex hinData =>
        exact (hold (by rintro ⟨⟩)).trans (hinData.trans hindex.symm)
    | starting hpc₀ => cases hpc.symm.trans hpc₀
    | counting hpc₀ =>
        rw [hpc] at hpc₀
        exact hpc₀.elim
  case claimingNew newBuffer =>
    cases hrun
    exact absurd rfl hpc'
  case settingBuffer =>
    cases hrun
    rfl
  all_goals try split at hrun
  all_goals
    cases hrun
    exact hold (by rintro ⟨⟩)

theorem Contents.of_not_holds (h : s.Contents)
    (hfree : ∀ i, ¬ s.calculator.Holds i)
    (hfree' : ∀ i, ¬ s'.calculator.Holds i)
    (hdata : s'.incomingData.buffers = s.incomingData.buffers)
    (hbatches : s'.batches = s.batches) (hlog : s'.log = s.log) :
    s'.Contents := by
  cases h with
  | free _ hbuffers hread =>
      refine .free hfree' ?_ ?_
      · intro i
        rw [hlog, ← hbuffers i]
        exact congrFun hdata i
      · rw [hbatches, hlog]
        exact hread
  | held taken k _ _ hprogress => exact absurd hprogress.holds (hfree taken)

theorem Contents.run (h : s.Contents) (hordered : s.Ordered)
    (hrun : s.run = some s') : s'.Contents := by
  cases hpc : s.listener.pc
  all_goals simp only [Session.run, hpc, reduceCtorEq] at hrun
  case startingAnnouncer =>
    cases hrun
    cases hordered.phase with
    | idle _ hcalc =>
        have hfree : ∀ i, ¬ s.calculator.Holds i := by
          rw [hcalc]
          exact fun _ => id
        exact h.of_not_holds hfree (fun _ => id) rfl rfl rfl
    | starting hpc₀ => cases hpc.symm.trans hpc₀
    | counting hpc₀ =>
        rw [hpc] at hpc₀
        exact hpc₀.elim
  all_goals try split at hrun
  all_goals
    cases hrun
    exact h.frame rfl rfl rfl rfl rfl

/-- The calculator comes to hold a buffer where nobody is counted as its
writer. -/
theorem holds_recalculate (hrec : s.recalculate = some s') {i : Fin 2}
    (hholds : s'.calculator.Holds i) :
    s.calculator.Holds i ∨ s.bufferWriterCount i = 0 := by
  cases hpc : s.calculator
  all_goals simp only [Session.recalculate, hpc, reduceCtorEq] at hrec
  case awaitingWriters taken =>
    split at hrec
    · cases hrec
      rw [hpc] at hholds
      exact hholds.elim
    · rename_i hzero
      cases hrec
      have htaken : taken = i := hholds
      subst htaken
      exact Or.inr (not_not.mp hzero)
  case awaitingReaders taken =>
    split at hrec <;> cases hrec
    · exact Or.inl (hpc ▸ hholds)
    · exact Or.inl hholds
  case clearing taken stage =>
    cases stage <;> cases hrec <;> first
      | exact Or.inl hholds
      | exact hholds.elim
  case reading taken stage =>
    cases hrec
    exact Or.inl hholds
  all_goals try split at hrec
  all_goals first
    | cases hrec; exact hholds.elim
    | cases hrec

/-- **One step** keeps the buffers in order, if the listener is not
overtaken. -/
theorem Buffered.step {a : SessionStep dm n} (h : s.Buffered)
    (hC : s.NotOvertaken a) (hstep : s.step a = some s') : s'.Buffered := by
  have hordered := h.ordered.step hstep
  cases a with
  | listener =>
      exact ⟨hordered, excluded_run h hC hstep, target_run h hstep,
        h.contents.run h.ordered hstep⟩
  | dispatch second msg =>
      have hcontents : s'.Contents := by
        obtain ⟨hpc, -⟩ := Option.ite_none_right_eq_some.mp hstep
        refine h.contents.dispatch ?_ hstep
        apply h.excluded
        rw [Listener.claim, hpc, h.target (by rw [hpc]; rintro ⟨⟩)]
      obtain ⟨hpc, hs'⟩ := Option.ite_none_right_eq_some.mp hstep
      cases hs'
      refine ⟨hordered, ?_, fun _ => h.target (by rw [hpc]; rintro ⟨⟩),
        hcontents⟩
      intro i hclaim
      refine h.excluded i ?_
      rw [Listener.claim, hpc]
      exact hclaim
  | listenerThrows =>
      obtain ⟨hthrow, hs'⟩ := Option.ite_none_right_eq_some.mp hstep
      cases hs'
      refine ⟨hordered, ?_, fun _ => h.target ?_,
        h.contents.frame rfl rfl rfl rfl rfl⟩
      · intro i hclaim
        refine h.excluded i ?_
        cases hpc : s.listener.pc <;> rw [hpc] at hthrow <;>
          first
          | exact hthrow.elim
          | (rw [Listener.claim, hpc]; exact hclaim)
      · intro hpc
        rw [hpc] at hthrow
        exact hthrow
  | calculator =>
      obtain ⟨hlistener, -, -, -⟩ := recalculate_frame hstep
      refine ⟨hordered, ?_, hlistener ▸ h.target,
        h.contents.recalculate hstep⟩
      intro i hclaim hholds
      rw [hlistener] at hclaim
      rcases holds_recalculate hstep hholds with hbefore | hzero
      · exact h.excluded i hclaim hbefore
      · rw [h.ordered.writers, if_pos hclaim] at hzero
        exact one_ne_zero hzero
  | announcerStops =>
      obtain ⟨⟨hcalc, -⟩, hs'⟩ := Option.ite_none_right_eq_some.mp hstep
      cases hs'
      have hfree : ∀ i, ¬ s.calculator.Holds i := by
        rw [hcalc]
        exact fun _ => id
      exact ⟨hordered, fun _ _ => id, h.target,
        h.contents.of_not_holds hfree (fun _ => id) rfl rfl rfl⟩
  | worker w action =>
      obtain ⟨⟨sync, pc⟩, -, hs'⟩ := Option.map_eq_some_iff.mp hstep
      cases hs'
      exact ⟨hordered, h.excluded, h.target,
        h.contents.frame rfl rfl rfl rfl rfl⟩
  | signalError =>
      cases hstep
      exact ⟨hordered, h.excluded, h.target,
        h.contents.frame rfl rfl rfl rfl rfl⟩

/-! ## §3  Runs -/

/-- Every finished recalculation has read exactly what was due to it: all the
messages whose buffer it was the first to take after they were dispatched
there, each once. At most one recalculation has taken its buffer and is not
through with it. -/
def BatchesExact (s : Session dm n) : Prop :=
  (∀ (k : ℕ) (batch : IncomingDataBuffer dm), s.batches[k]? = some batch →
      batch = dispatchAll (due s.log k)) ∧
    s.batches.length ≤ takes s.log ∧ takes s.log ≤ s.batches.length + 1

theorem Contents.exact (h : s.Contents) : s.BatchesExact := by
  have hread : ∀ j, s.batches =
      (List.range j).map (fun k => dispatchAll (due s.log k)) →
      ∀ (k : ℕ) (batch : IncomingDataBuffer dm),
        s.batches[k]? = some batch → batch = dispatchAll (due s.log k) := by
    intro j hj k batch hbatch
    rw [hj, List.getElem?_map] at hbatch
    obtain ⟨k', hk', rfl⟩ := Option.map_eq_some_iff.mp hbatch
    obtain ⟨-, rfl⟩ := List.getElem?_eq_some_iff.mp hk'
    rw [List.getElem_range]
  cases h with
  | free _ _ hbatches =>
      refine ⟨hread _ hbatches, ?_, ?_⟩ <;>
        rw [hbatches, List.length_map, List.length_range]
      exact Nat.le_succ _
  | held taken k htakes _ _ _ hbatches =>
      refine ⟨hread _ hbatches, ?_, ?_⟩ <;>
        rw [hbatches, List.length_map, List.length_range, htakes]
      exact Nat.le_succ _

/-- **The double buffer** in every run in which the listener never counts
itself as a writer of a buffer that is taken and not cleared: it does not
dispatch into a buffer the calculator is processing, and every message is in
the batch of one recalculation, the first to take its buffer after the
dispatch, or still to come. -/
theorem double_buffer {steps : List (SessionStep dm n)}
    (hrun : (machine dm n).Run NotOvertaken steps s) :
    (s.listener.pc = .dispatching →
      ¬ s.calculator.Processes s.listener.dispatcherBuffer) ∧
    s.BatchesExact ∧
    (items s.log : Multiset (Fin 60 × ClientMessage dm)) =
      ∑ k ∈ Finset.range (takes s.log),
          (due s.log k : Multiset (Fin 60 × ClientMessage dm)) +
        ∑ i, (owed s.log i : Multiset (Fin 60 × ClientMessage dm)) := by
  have hinv : s.Buffered := by
    apply hrun.invariant
    · rintro _ ⟨count, rfl⟩
      exact buffered_start count
    · intro s a s' h hC hstep
      exact h.step hC hstep
  refine ⟨?_, hinv.contents.exact, exactly_once s.log⟩
  intro hpc hprocesses
  have hclaim : s.listener.claim = some s.listener.dispatcherBuffer := by
    rw [Listener.claim, hpc, hinv.target (by rw [hpc]; rintro ⟨⟩)]
  refine hinv.excluded _ hclaim ?_
  cases hcalc : s.calculator <;> rw [hcalc] at hprocesses <;>
    first | exact hprocesses | exact hprocesses.elim

/-! ### One worker and two recalculations -/

instance (taken : Fin 2) : DecidablePred (CalculatorPc.Holds taken) :=
  fun pc => by cases pc <;> unfold CalculatorPc.Holds <;> infer_instance

instance (s : Session dm n) (a : SessionStep dm n) :
    Decidable (s.NotOvertaken a) :=
  match a with
  | .listener => inferInstanceAs (Decidable (∀ _, _ → ¬ _))
  | .dispatch _ _ | .listenerThrows | .calculator | .announcerStops
  | .worker _ _ | .signalError => .isTrue trivial

/-- A message, and a recalculation that reads it from the first buffer. -/
def handedOver : List (SessionStep .lp64 1) :=
  opening ++ message false ++ [.calculator, .calculator] ++ message true ++
    [.calculator] ++ List.replicate 6 (.worker 0 .proceed) ++
    List.replicate 9 .calculator

theorem handedOver_batch : (after handedOver).batches[0]? =
    some (dispatchAll [(0, .disconnected {})]) := by
  have hexact := (double_buffer
    (Machine.run_of_schedule handedOver ⟨0, rfl⟩ (by decide) rfl)).2.1
  have hread : ∃ batch, (after handedOver).batches[0]? = some batch := ⟨_, rfl⟩
  obtain ⟨batch, hbatch⟩ := hread
  rw [hbatch, hexact.1 0 batch hbatch]
  rfl

/-- The listener has released the first buffer and is about to claim the
second one; the calculator finishes with the first and takes the second. -/
def overtaking : List (SessionStep .lp64 1) :=
  opening ++ [.calculator, .calculator] ++ List.replicate 4 .listener ++
    [.calculator] ++ List.replicate 6 (.worker 0 .proceed) ++
    List.replicate 17 .calculator ++ [.listener, .listener]

theorem overtaking_unsafe :
    ¬ ∀ s : Session .lp64 1, (machine .lp64 1).Reachable s →
      s.listener.pc = .dispatching →
        ¬ s.calculator.Processes s.listener.dispatcherBuffer := by
  intro h
  exact h (after overtaking)
    (Machine.reachable_of_schedule overtaking ⟨0, rfl⟩ rfl) rfl rfl

end Session

end RatingService
