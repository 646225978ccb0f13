import RatingService.Service.DoubleBuffer
import RatingService.Service.PromiseQueue
import RatingService.Service.ReaderExclusion

/-!
# Recognized users

A session with the tables and the queues its threads work on. Between his
registration and the recalculation that works it in, a user is known to a
buffer only. The flag of a promise tells the worker so, but it is computed from
the listener's present buffer, and the registration may be in the other one.

- §1: the session with its data.
- §2: what a recalculation does to the promises and to the known users.
- §3: where a registration is.
- §4: runs in which no worker is ahead of a registration, and a run in which
  one is.
-/

namespace RatingService

open Runs

variable {dm : DataModel} {n : ℕ}

/-! ## §1  The session and its data -/

structure HandledPromise where
  promise : UserIdPromise
  /-- the user's registration was dispatched before the connection was -/
  registeredBefore : Bool
  /-- what `processRating` returns -/
  place : Option (IdT × ℤ)

structure LiveSession (dm : DataModel) (n : ℕ) where
  session : Session dm n
  jobQueue : JobQueue n
  userData : CoreRatingData dm
  iterationData : IterationData
  /-- a ghost: whose registrations were dispatched -/
  registered : List IdT := []
  /-- a ghost: for each promise in a queue, whether its user's registration was
  dispatched before -/
  known : Fin n → List Bool := fun _ => []
  /-- a ghost -/
  handled : List HandledPromise := []

/-- `dropOldRating` is read where a recalculation ends. -/
structure LiveStep (dm : DataModel) (n : ℕ) where
  thread : SessionStep dm n
  dropOldRating : Bool := false

namespace LiveSession

/-- `dispatch` on the queue. -/
def dispatch (s : LiveSession dm n) (second : Fin 60)
    (msg : ClientMessage dm) : LiveSession dm n :=
  let s' := { s with jobQueue := (RatingService.dispatch second
    (s.session.buffer s.session.listener.dispatcherBuffer) s.jobQueue msg).2 }
  match msg with
  | .registered msg => { s' with registered := s.registered ++ [msg.userId] }
  | .connected msg => { s' with
      known := Function.update s.known s.jobQueue.promiseIndex
        (s.known s.jobQueue.promiseIndex ++
          [decide (msg.userId ∈ s.registered)]) }
  | _ => s'

/-- The calculator is through with the batch. Nobody may look into the tables
before, so what is in them by then does not matter. -/
def recalculate (s : LiveSession dm n) (dropOldRating : Bool) :
    Option (LiveSession dm n) :=
  match s.session.calculator with
  | .clearing _ .deals =>
      match (RatingCalculatorImpl.create s.userData s.iterationData
        s.session.batch s.jobQueue).recalculate dropOldRating with
      | .ok c => some { s with
          userData := c.userData
          iterationData := c.iterationData
          jobQueue := c.jobQueue }
      | .error _ => none
  | _ => some s

/-- The drain loop: its condition, and its body unless the loop ends. -/
def drain (s : LiveSession dm n) (w : Fin n) (action : WorkerAction) :
    Option (LiveSession dm n) :=
  if s.session.workers w = .promises then
    let (promise, jobQueue) := s.jobQueue.dequeueUserIdPromise w
    let s' := { s with
      jobQueue
      known := Function.update s.known w (s.known w).tail }
    if action = .proceed then
      if promise.1 = invalidId then some s' else none
    else if promise.1 ≠ invalidId then
      some { s' with handled := s.handled ++
        [{ promise
           registeredBefore := (s.known w).headD false
           place := s.userData.processRating promise }] }
    else none
  else some s

def work (s : LiveSession dm n) (a : LiveStep dm n) :
    Option (LiveSession dm n) :=
  match a.thread with
  | .dispatch second msg => some (s.dispatch second msg)
  | .calculator => s.recalculate a.dropOldRating
  | .worker w action => s.drain w action
  | _ => some s

def step (s : LiveSession dm n) (a : LiveStep dm n) :
    Option (LiveSession dm n) := do
  let session ← s.session.step a.thread
  let s' ← s.work a
  some { s' with session }

def machine (dm : DataModel) (n : ℕ) :
    Machine (LiveSession dm n) (LiveStep dm n) where
  init s := ∃ (count : ℤ) (h : 0 < n) (d : CoreRatingData dm)
    (it : IterationData), d.Disjoint ∧
      s = { session := .start dm n count, jobQueue := .create h, userData := d,
            iterationData := it }
  step := step

end LiveSession

/-! ## §2  A recalculation -/

namespace RatingCalculatorImpl

variable {s s' : RatingCalculatorImpl dm n}

section ErrorJobs

variable {β : Type} {f : JobQueue n → β}

theorem jobQueue_processRegistration
    (hf : ∀ q error, f (q.enqueueErrorJob error) = f q) (e : IdT × BufferT) :
    f (s.processRegistration e).jobQueue = f s.jobQueue := by
  unfold processRegistration
  split
  · exact hf _ _
  · rfl

/-- **Only errors are enqueued**: what error jobs leave alone a recalculation
does. -/
theorem jobQueue_recalculate
    (hf : ∀ q error, f (q.enqueueErrorJob error) = f q) {dropOldRating : Bool}
    (hs : s.recalculate dropOldRating = .ok s') :
    f s'.jobQueue = f s.jobQueue := by
  rw [jobQueue_processRegistrations (fun q id => hf q _) hs]
  have hregistered : ∀ s₀ : RatingCalculatorImpl dm n,
      f s₀.processRegistrations.jobQueue = f s₀.jobQueue :=
    fun s₀ => KeyedFold.foldl_invariant (fun c : RatingCalculatorImpl dm n =>
      f c.jobQueue = f s₀.jobQueue)
      (fun c e h => (jobQueue_processRegistration hf e).trans h) _ _ rfl
  rw [hregistered]
  cases dropOldRating <;> rfl

end ErrorJobs

/-- **The known users after a recalculation**: those known before and those
its batch registers. -/
theorem recalculate_isRegistered {dropOldRating : Bool}
    (hdisj : s.userData.Disjoint) (hsec : s.incomingBuffer.SecondsOk)
    (hs : s.recalculate dropOldRating = .ok s') (id : IdT) :
    (s'.userState id).isRegistered =
      ((s.userState id).isRegistered ||
        (s.incomingBuffer.usersRegistered[id]?).isSome) := by
  rw [← isRegistered_batchState s dropOldRating id,
    UserState.isRegistered_eq_isSome, UserState.isRegistered_eq_isSome,
    ((recalculate_of_ok hdisj hsec hs).2 id).1]

end RatingCalculatorImpl

/-! ## §3  Where a registration is -/

/-- The batch has been given its registrations, and is not worked in. -/
def CalculatorPc.HasRegistrations : CalculatorPc → Prop
  | .reading _ stage => stage ≠ .registrations
  | .clearing _ _ => True
  | _ => False

theorem CalculatorPc.HasRegistrations.exclusive {pc : CalculatorPc}
    (h : pc.HasRegistrations) : pc.Exclusive := by
  cases pc <;> first | exact h.elim | trivial

theorem IncomingDataBuffer.mem_record {second : Fin 60}
    {buffer : IncomingDataBuffer dm} {msg : ClientMessage dm} {id : IdT} :
    id ∈ (buffer.record second msg).usersRegistered ↔
      id ∈ buffer.usersRegistered ∨ ∃ reg, msg = .registered reg ∧
        reg.userId = id := by
  cases msg with
  | registered reg =>
      refine Std.TreeMap.mem_insertIfNew.trans ?_
      rw [Std.LawfulEqCmp.compare_eq_iff_eq, or_comm]
      simp
  | renamed reg => simp [record, RatingService.dispatch]
  | connected reg => simp [record, RatingService.dispatch]
  | disconnected reg => simp [record, RatingService.dispatch]
  | dealWon reg => simp [record, RatingService.dispatch]

theorem Stage.copy_secondsOk {batch buffer : IncomingDataBuffer dm}
    (hbatch : batch.SecondsOk) (hbuffer : buffer.SecondsOk) (stage : Stage) :
    (stage.copy batch buffer).SecondsOk := by
  cases stage with
  | connectionChanges => exact hbuffer
  | registrations | renames | deals => exact hbatch

namespace Session

variable {s s' : Session dm n} {id : IdT}

/-- A registration of the user is in a buffer, or in the batch that is being
worked in. -/
def Awaits (s : Session dm n) (id : IdT) : Prop :=
  (∃ i, id ∈ (s.buffer i).usersRegistered) ∨
    s.calculator.HasRegistrations ∧ id ∈ s.batch.usersRegistered

structure Copied (s : Session dm n) : Prop where
  registrations : ∀ taken, s.calculator = .clearing taken .registrations →
    s.batch.usersRegistered = (s.buffer taken).usersRegistered
  seconds : ∀ i, (s.buffer i).SecondsOk
  batchSeconds : s.batch.SecondsOk

theorem copied_start (count : ℤ) : (start dm n count).Copied where
  registrations := nofun
  seconds := fun _ => secondsOk_empty
  batchSeconds := secondsOk_empty

theorem Awaits.frame (h : s.Awaits id)
    (hbuffers : s'.incomingData.buffers = s.incomingData.buffers)
    (hbatch : s'.batch = s.batch) (hcalc : s'.calculator = s.calculator) :
    s'.Awaits id := by
  have hbuffer : ∀ i, s'.buffer i = s.buffer i := congrFun hbuffers
  simp only [Awaits, hbuffer, hbatch, hcalc]
  exact h

theorem Copied.frame (h : s.Copied)
    (hbuffers : s'.incomingData.buffers = s.incomingData.buffers)
    (hbatch : s'.batch = s.batch)
    (hcalc : ∀ taken, s'.calculator = .clearing taken .registrations →
      s.calculator = .clearing taken .registrations) : s'.Copied := by
  have hbuffer : ∀ i, s'.buffer i = s.buffer i := congrFun hbuffers
  refine ⟨?_, ?_, hbatch ▸ h.batchSeconds⟩
  · intro taken hpc
    rw [hbatch, hbuffer]
    exact h.registrations taken (hcalc taken hpc)
  · intro i
    rw [hbuffer]
    exact h.seconds i

theorem run_data (hrun : s.run = some s') :
    s'.incomingData.buffers = s.incomingData.buffers ∧ s'.batch = s.batch := by
  cases hpc : s.listener.pc
  all_goals simp only [Session.run, hpc, reduceCtorEq] at hrun
  all_goals try split at hrun
  all_goals
    cases hrun
    exact ⟨rfl, rfl⟩

theorem Phase.notStarted (h : s.Phase)
    (hpc : s.listener.pc = .startingAnnouncer) :
    s.calculator = .notStarted := by
  cases h with
  | idle _ hcalc => exact hcalc
  | starting hpc₀ => cases hpc.symm.trans hpc₀
  | counting hpc₀ =>
      rw [hpc] at hpc₀
      exact hpc₀.elim

theorem Awaits.run (h : s.Awaits id) (hphase : s.Phase)
    (hrun : s.run = some s') : s'.Awaits id := by
  obtain ⟨hbuffers, hbatch⟩ := run_data hrun
  obtain ⟨-, hcalc | ⟨hpc, -⟩, -⟩ := run_frame hrun
  · exact h.frame hbuffers hbatch hcalc
  · have hbuffer : ∀ i, s'.buffer i = s.buffer i := congrFun hbuffers
    rcases h with hbuffered | ⟨hbusy, -⟩
    · simp only [Awaits, hbuffer]
      exact .inl hbuffered
    · rw [hphase.notStarted hpc] at hbusy
      exact hbusy.elim

theorem Copied.run (h : s.Copied) (hrun : s.run = some s') : s'.Copied := by
  obtain ⟨hbuffers, hbatch⟩ := run_data hrun
  refine h.frame hbuffers hbatch fun taken hpc => ?_
  obtain ⟨-, hcalc | ⟨-, hcalc⟩, -⟩ := run_frame hrun
  · exact hcalc ▸ hpc
  · cases hcalc.symm.trans hpc

theorem buffer_dispatch {second : Fin 60} {msg : ClientMessage dm}
    (hdispatch : s.dispatch second msg = some s') (i : Fin 2) :
    s'.buffer i = if i = s.listener.dispatcherBuffer then
      (s.buffer i).record second msg else s.buffer i := by
  obtain ⟨-, hs'⟩ := Option.ite_none_right_eq_some.mp hdispatch
  cases hs'
  split
  · next hi =>
    rw [hi]
    exact Function.update_self ..
  · next hi => exact Function.update_of_ne hi ..

theorem Awaits.dispatch {second : Fin 60} {msg : ClientMessage dm}
    (h : s.Awaits id) (hdispatch : s.dispatch second msg = some s') :
    s'.Awaits id := by
  have hbuffer := buffer_dispatch hdispatch
  obtain ⟨-, hs'⟩ := Option.ite_none_right_eq_some.mp hdispatch
  cases hs'
  refine h.imp_left ?_
  rintro ⟨i, hi⟩
  refine ⟨i, ?_⟩
  rw [hbuffer]
  split
  · exact IncomingDataBuffer.mem_record.mpr (.inl hi)
  · exact hi

theorem awaits_registered {second : Fin 60} {reg : UserRegisteredMsg}
    (hdispatch : s.dispatch second (.registered reg) = some s') :
    s'.Awaits reg.userId := by
  refine .inl ⟨s.listener.dispatcherBuffer, ?_⟩
  rw [buffer_dispatch hdispatch, if_pos rfl]
  exact IncomingDataBuffer.mem_record.mpr (.inr ⟨reg, rfl, rfl⟩)

theorem Copied.dispatch {second : Fin 60} {msg : ClientMessage dm}
    (h : s.Copied)
    (hfree : ∀ reg, msg = .registered reg →
      ¬ s.calculator.Processes s.listener.dispatcherBuffer)
    (hdispatch : s.dispatch second msg = some s') : s'.Copied := by
  have hbuffer := buffer_dispatch hdispatch
  obtain ⟨-, hs'⟩ := Option.ite_none_right_eq_some.mp hdispatch
  cases hs'
  refine ⟨?_, ?_, h.batchSeconds⟩
  · intro taken hpc
    rw [hbuffer]
    have hsame := h.registrations taken hpc
    replace hpc : s.calculator = .clearing taken .registrations := hpc
    split
    · next htaken =>
      refine hsame.trans ?_
      cases msg with
      | registered reg =>
          refine absurd ?_ (hfree reg rfl)
          rw [hpc]
          exact htaken
      | renamed _ | connected _ | disconnected _ | dealWon _ => rfl
    · exact hsame
  · intro i
    rw [hbuffer]
    split
    · exact dispatch_secondsOk second _ msg (h.seconds i)
    · exact h.seconds i

/-- **The calculator** takes a registration from its buffer into the batch,
and keeps it there up to the end of the recalculation. -/
theorem Awaits.recalculate (h : s.Awaits id) (hcopied : s.Copied)
    (hrec : s.recalculate = some s') :
    s'.Awaits id ∨ ∃ taken, s.calculator = .clearing taken .deals ∧
      id ∈ s.batch.usersRegistered := by
  rw [Awaits] at h
  cases hpc : s.calculator
  all_goals rw [hpc] at h
  all_goals simp only [Session.recalculate, hpc, reduceCtorEq] at hrec
  case reading taken stage =>
    cases hrec
    refine .inl (h.imp_right ?_)
    rintro ⟨hstage, hid⟩
    refine ⟨trivial, ?_⟩
    cases stage with
    | registrations => exact absurd rfl hstage
    | renames | connectionChanges | deals => exact hid
  case clearing taken stage =>
    have hother : ∀ i, i ≠ taken →
        (s.incomingData.setBuffer taken (stage.clear (s.buffer taken))).buffers
          i = s.buffer i := fun i hi => Function.update_of_ne hi ..
    have hself : (s.incomingData.setBuffer taken
        (stage.clear (s.buffer taken))).buffers taken =
          stage.clear (s.buffer taken) := Function.update_self ..
    have hkept : stage ≠ .registrations → ∀ i, id ∈ (s.buffer i).usersRegistered →
        id ∈ ((s.incomingData.setBuffer taken
          (stage.clear (s.buffer taken))).buffers i).usersRegistered := by
      intro hstage i hi
      by_cases htaken : i = taken
      · rw [htaken] at hi ⊢
        rw [hself]
        cases stage with
        | registrations => exact absurd rfl hstage
        | renames | connectionChanges | deals => exact hi
      · rw [hother i htaken]
        exact hi
    cases stage with
    | registrations =>
        cases hrec
        left
        rcases h with ⟨i, hi⟩ | ⟨-, hid⟩
        · by_cases htaken : i = taken
          · refine .inr ⟨by rintro ⟨⟩, ?_⟩
            rw [htaken] at hi
            exact hcopied.registrations taken hpc ▸ hi
          · refine .inl ⟨i, ?_⟩
            rw [← hother i htaken] at hi
            exact hi
        · exact .inr ⟨by rintro ⟨⟩, hid⟩
    | renames | connectionChanges =>
        cases hrec
        left
        rcases h with ⟨i, hi⟩ | ⟨-, hid⟩
        · exact .inl ⟨i, hkept (by rintro ⟨⟩) i hi⟩
        · exact .inr ⟨by rintro ⟨⟩, hid⟩
    | deals =>
        cases hrec
        rcases h with ⟨i, hi⟩ | ⟨-, hid⟩
        · exact .inl (.inl ⟨i, hkept (by rintro ⟨⟩) i hi⟩)
        · exact .inr ⟨taken, rfl, hid⟩
  all_goals have h := h.resolve_right fun h => h.1.elim
  all_goals try split at hrec
  all_goals first
    | cases hrec; done
    | cases hrec; exact .inl (.inl h)

theorem Copied.recalculate (h : s.Copied) (hrec : s.recalculate = some s') :
    s'.Copied := by
  cases hpc : s.calculator
  all_goals simp only [Session.recalculate, hpc, reduceCtorEq] at hrec
  case reading taken stage =>
    cases hrec
    refine ⟨?_, h.seconds,
      Stage.copy_secondsOk h.batchSeconds (h.seconds taken) stage⟩
    intro taken' hpc'
    cases hpc'
    rfl
  case clearing taken stage =>
    have hseconds := IncomingDataDoubleBuffer.setBuffer_secondsOk
      (i := taken) h.seconds
      (Stage.copy_secondsOk (h.seconds taken) secondsOk_empty stage)
    cases stage with
    | registrations | renames | connectionChanges | deals =>
        cases hrec
        refine ⟨?_, hseconds, h.batchSeconds⟩
        rintro _ ⟨⟩
  case awaitingReaders taken =>
    split at hrec <;> cases hrec
    · exact h
    · refine ⟨?_, h.seconds, secondsOk_empty⟩
      rintro _ ⟨⟩
  all_goals try split at hrec
  all_goals first
    | cases hrec; done
    | cases hrec; exact h
    | cases hrec; exact h.frame rfl rfl (by rintro _ ⟨⟩)

end Session

/-! ## §4  Runs -/

namespace LiveSession

/-- The promise has no flag, its user is in neither table, and a buffer holds a
registration of his. -/
def Overlooks (s : LiveSession dm n) (promise : UserIdPromise) : Prop :=
  promise.2 = false ∧ (s.userData.userState promise.1).isRegistered = false ∧
    ∃ i, promise.1 ∈ (s.session.buffer i).usersRegistered

/-- No registration is dispatched into a buffer the calculator is at work on,
and no worker handles a promise while the tables are being changed, or, unless
the promise has the flag or its user is in the tables, while a buffer holds a
registration of his. -/
def InTime (s : LiveSession dm n) (a : LiveStep dm n) : Prop :=
  match a.thread with
  | .dispatch _ (.registered _) =>
      ¬ s.session.calculator.Processes s.session.listener.dispatcherBuffer
  | .worker w action =>
      s.session.workers w = .promises → action ≠ .proceed →
        ¬ s.session.calculator.Exclusive ∧
        ¬ (s.jobQueue.queues w).userIdPromiseQueue.head?.elim False s.Overlooks
  | _ => True

def Kept (s : LiveSession dm n) (id : IdT) : Prop :=
  (s.userData.userState id).isRegistered = true ∨ s.session.Awaits id

/-- **The invariant**: a dispatched registration is worked in or waits to be,
and the ghosts of the promises tell the truth. -/
structure Truthful (s : LiveSession dm n) : Prop where
  ordered : s.session.Ordered
  copied : s.session.Copied
  disjoint : s.userData.Disjoint
  kept : ∀ id ∈ s.registered, s.Kept id
  queues : ∀ w, List.Forall₂
    (fun (promise : UserIdPromise) known =>
      known = true → promise.1 ∈ s.registered)
    (s.jobQueue.queues w).userIdPromiseQueue (s.known w)
  handled : ∀ h ∈ s.handled, h.registeredBefore = true → h.place ≠ none

variable {s s' : LiveSession dm n} {session : Session dm n} {w : Fin n}
  {action : WorkerAction}

theorem truthful_init (hs : (machine dm n).init s) : s.Truthful := by
  obtain ⟨count, h, d, it, hdisj, rfl⟩ := hs
  exact ⟨Session.ordered_start count, Session.copied_start count, hdisj, nofun,
    fun _ => .nil, nofun⟩

theorem Truthful.withSession (h : s.Truthful) (hordered : session.Ordered)
    (hcopied : session.Copied)
    (hawaits : ∀ id, s.session.Awaits id → session.Awaits id) :
    ({ s with session } : LiveSession dm n).Truthful :=
  ⟨hordered, hcopied, h.disjoint,
    fun id hid => (h.kept id hid).imp_right (hawaits id), h.queues, h.handled⟩

/-- **A dispatch.** -/
theorem Truthful.dispatch (h : s.Truthful) {second : Fin 60}
    {msg : ClientMessage dm} (hC : s.InTime ⟨.dispatch second msg, false⟩)
    (hdispatch : s.session.dispatch second msg = some session) :
    ({ s.dispatch second msg with session } : LiveSession dm n).Truthful := by
  have hordered := h.ordered.step (a := .dispatch second msg) hdispatch
  have hcopied : session.Copied := by
    refine h.copied.dispatch ?_ hdispatch
    rintro reg rfl
    exact hC
  have hkept : ∀ id ∈ s.registered,
      (s.userData.userState id).isRegistered = true ∨ session.Awaits id :=
    fun id hid => (h.kept id hid).imp_right fun hwaits =>
      hwaits.dispatch hdispatch
  cases msg with
  | registered reg =>
      refine ⟨hordered, hcopied, h.disjoint, ?_, ?_, h.handled⟩
      · intro id hid
        rcases List.mem_append.mp hid with hid | hid
        · exact hkept id hid
        · rw [List.mem_singleton.mp hid]
          exact .inr (Session.awaits_registered hdispatch)
      · intro w
        exact (h.queues w).imp fun promise known hp hk =>
          List.mem_append_left _ (hp hk)
  | renamed _ | disconnected _ | dealWon _ =>
      exact ⟨hordered, hcopied, h.disjoint, hkept, h.queues, h.handled⟩
  | connected msg =>
      refine ⟨hordered, hcopied, h.disjoint, hkept, ?_, h.handled⟩
      intro w
      have hqueue := h.queues w
      simp only [LiveSession.dispatch, RatingService.dispatch,
        JobQueue.userIdPromiseQueue_enqueuePromise]
      split
      · next hw =>
        rw [hw, Function.update_self]
        rw [hw] at hqueue
        exact List.rel_append hqueue (.cons of_decide_eq_true .nil)
      · next hw =>
        rw [Function.update_of_ne hw]
        exact hqueue

/-- **A step of the calculator.** -/
theorem Truthful.recalculate (h : s.Truthful) {dropOldRating : Bool}
    (hrec : s.session.recalculate = some session)
    (hs : s.recalculate dropOldRating = some s') :
    ({ s' with session } : LiveSession dm n).Truthful := by
  have hordered := h.ordered.step (a := .calculator) hrec
  have hcopied := h.copied.recalculate hrec
  have hawaits : ∀ id, s.session.Awaits id → session.Awaits id ∨ _ :=
    fun id hid => hid.recalculate h.copied hrec
  rw [LiveSession.recalculate] at hs
  split at hs
  · next taken hcalc =>
    split at hs
    · next c hc =>
      cases hs
      have hknown : ∀ id, (c.userData.userState id).isRegistered =
          ((s.userData.userState id).isRegistered ||
            (s.session.batch.usersRegistered[id]?).isSome) :=
        RatingCalculatorImpl.recalculate_isRegistered
          (s := .create s.userData s.iterationData s.session.batch s.jobQueue)
          h.disjoint h.copied.batchSeconds hc
      have hqueues : ∀ w, (c.jobQueue.queues w).userIdPromiseQueue =
          (s.jobQueue.queues w).userIdPromiseQueue := by
        intro w
        refine RatingCalculatorImpl.jobQueue_recalculate
          (f := fun q => (q.queues w).userIdPromiseQueue) ?_ hc
        intro q error
        dsimp only [JobQueue.enqueueErrorJob]
        by_cases hw : w = q.errorIndex
        · rw [hw, Function.update_self]
        · rw [Function.update_of_ne hw]
      refine ⟨hordered, hcopied, ?_, ?_, ?_, h.handled⟩
      · exact (RatingCalculatorImpl.recalculate_of_ok
          (s := .create s.userData s.iterationData s.session.batch s.jobQueue)
          h.disjoint h.copied.batchSeconds hc).1
      · intro id hid
        rw [Kept]
        dsimp only
        rw [hknown, Bool.or_eq_true]
        rcases h.kept id hid with hreg | hwaits
        · exact .inl (.inl hreg)
        · rcases hawaits id hwaits with hwaits | ⟨-, -, hbatch⟩
          · exact .inr hwaits
          · refine .inl (.inr ?_)
            rw [Std.TreeMap.isSome_getElem?_eq_contains]
            exact hbatch
      · intro w
        dsimp only
        rw [hqueues]
        exact h.queues w
    · cases hs
  · next hcalc =>
    cases hs
    refine h.withSession hordered hcopied fun id hid => ?_
    rcases hawaits id hid with hwaits | ⟨taken, hpc, -⟩
    · exact hwaits
    · exact absurd hpc (hcalc taken)

/-- **A step of a worker**: a promise whose user's registration was dispatched
before is answered with his place, if that registration does not wait any
more. -/
theorem Truthful.drain (h : s.Truthful)
    (hC : s.InTime ⟨.worker w action, false⟩)
    (hs : s.drain w action = some s') : s'.Truthful := by
  rw [LiveSession.drain] at hs
  split at hs
  · next hpc =>
    have hqueues : ∀ w', List.Forall₂
        (fun (promise : UserIdPromise) known =>
          known = true → promise.1 ∈ s.registered)
        ((s.jobQueue.dequeueUserIdPromise w).2.queues w').userIdPromiseQueue
        (Function.update s.known w (s.known w).tail w') := by
      intro w'
      rw [JobQueue.userIdPromiseQueue_dequeue]
      split
      · next hw =>
        rw [hw, Function.update_self]
        have hqueue := h.queues w
        generalize (s.jobQueue.queues w).userIdPromiseQueue = queue at hqueue ⊢
        generalize s.known w = known at hqueue ⊢
        cases hqueue with
        | nil => exact .nil
        | cons _ hrest => exact hrest
      · next hw =>
        rw [Function.update_of_ne hw]
        exact h.queues w'
    dsimp only at hs
    split at hs
    · obtain ⟨-, hs⟩ := Option.ite_none_right_eq_some.mp hs
      cases hs
      exact ⟨h.ordered, h.copied, h.disjoint, h.kept, hqueues, h.handled⟩
    · next haction =>
      obtain ⟨hid, hs⟩ := Option.ite_none_right_eq_some.mp hs
      cases hs
      refine ⟨h.ordered, h.copied, h.disjoint, h.kept, hqueues, ?_⟩
      intro handled hhandled hbefore
      rcases List.mem_append.mp hhandled with hhandled | hhandled
      · exact h.handled handled hhandled hbefore
      rw [List.mem_singleton.mp hhandled] at hbefore ⊢
      obtain ⟨hexclusive, hwaiting⟩ := hC hpc haction
      rw [JobQueue.dequeueUserIdPromise] at hid ⊢
      generalize hq : (s.jobQueue.queues w).userIdPromiseQueue = queue at hid ⊢
      have hqueue := h.queues w
      rw [hq] at hqueue hwaiting
      cases queue with
      | nil => exact absurd rfl hid
      | cons promise rest =>
          cases hknown : s.known w with
          | nil =>
              rw [hknown] at hqueue
              cases hqueue
          | cons known ks =>
              rw [hknown] at hqueue hbefore
              cases hqueue with
              | cons hhead _ =>
              dsimp only
              rw [ne_eq, CoreRatingData.processRating_eq_none]
              rintro ⟨hunknown, hflag⟩
              rcases h.kept _ (hhead hbefore) with hreg | ⟨i, hi⟩ | ⟨hbusy, -⟩
              · rw [hunknown] at hreg
                cases hreg
              · exact hwaiting ⟨hflag, hunknown, i, hi⟩
              · exact hexclusive hbusy.exclusive
  · cases hs
    exact h

/-- **One step.** -/
theorem Truthful.step {a : LiveStep dm n} (h : s.Truthful) (hC : s.InTime a)
    (hs : s.step a = some s') : s'.Truthful := by
  obtain ⟨session, hsession, hs⟩ := Option.bind_eq_some_iff.mp hs
  obtain ⟨s₁, hwork, hs⟩ := Option.bind_eq_some_iff.mp hs
  cases hs
  have hordered := h.ordered.step hsession
  obtain ⟨thread, dropOldRating⟩ := a
  cases thread with
  | listener =>
      cases hwork
      exact h.withSession hordered (h.copied.run hsession) fun id hid =>
        hid.run h.ordered.phase hsession
  | dispatch second msg =>
      cases hwork
      exact h.dispatch hC hsession
  | listenerThrows =>
      cases hwork
      obtain ⟨-, hs⟩ := Option.ite_none_right_eq_some.mp hsession
      cases hs
      exact h.withSession hordered (h.copied.frame rfl rfl fun _ => id)
        fun id hid => hid.frame rfl rfl rfl
  | calculator => exact h.recalculate hsession hwork
  | announcerStops =>
      cases hwork
      obtain ⟨⟨hcalc, -⟩, hs⟩ := Option.ite_none_right_eq_some.mp hsession
      cases hs
      refine h.withSession hordered (h.copied.frame rfl rfl fun _ => nofun) ?_
      rintro id (hbuffered | ⟨hbusy, -⟩)
      · exact .inl hbuffered
      · rw [hcalc] at hbusy
        exact hbusy.elim
  | worker w action =>
      obtain ⟨⟨sync, pc⟩, -, hs⟩ := Option.map_eq_some_iff.mp hsession
      cases hs
      have hsame : s₁.session = s.session := by
        replace hwork : s.drain w action = some s₁ := hwork
        unfold LiveSession.drain at hwork
        split at hwork
        · dsimp only at hwork
          split at hwork <;>
            obtain ⟨-, hwork⟩ := Option.ite_none_right_eq_some.mp hwork <;>
            cases hwork <;> rfl
        · cases hwork
          rfl
      exact (h.drain hC hwork).withSession hordered
        (h.copied.frame rfl rfl fun _ => id)
        fun id hid => (hsame ▸ hid).frame rfl rfl rfl
  | signalError =>
      cases hwork
      cases hsession
      exact h.withSession hordered (h.copied.frame rfl rfl fun _ => id)
        fun id hid => hid.frame rfl rfl rfl

/-- **Registered users are recognized** in every run in which no worker is
ahead of a registration that waits in a buffer: a promise whose user was
registered before he connected is answered with his place. -/
theorem registered_recognized {steps : List (LiveStep dm n)}
    (hrun : (machine dm n).Run InTime steps s) :
    ∀ h ∈ s.handled, h.registeredBefore = true → h.place ≠ none := by
  have hinv : s.Truthful := by
    apply hrun.invariant
    · exact fun s hs => truthful_init hs
    · exact fun s a s' h hC hs => h.step hC hs
  exact hinv.handled

/-! ### One worker and one user -/

instance (taken : Fin 2) : DecidablePred (CalculatorPc.Processes taken)
  | .reading b _ | .clearing b _ => instDecidableEqFin 2 b taken
  | .notStarted | .announcing | .exchanged _ | .awaitingWriters _
  | .awaitingReaders _ | .locking | .resettingFlag | .unlocking | .notifying
  | .stopped => .isFalse id

instance : DecidablePred CalculatorPc.Exclusive
  | .reading _ _ | .clearing _ _ | .locking | .resettingFlag => .isTrue trivial
  | .notStarted | .announcing | .exchanged _ | .awaitingWriters _
  | .awaitingReaders _ | .unlocking | .notifying | .stopped => .isFalse id

instance (s : LiveSession dm n) : DecidablePred s.Overlooks :=
  fun _ => inferInstanceAs (Decidable (_ ∧ _ ∧ ∃ _, _))

instance (s : LiveSession dm n) :
    ∀ promise, Decidable (Option.elim promise False s.Overlooks)
  | none => .isFalse id
  | some promise => inferInstanceAs (Decidable (s.Overlooks promise))

instance (s : LiveSession dm n) (a : LiveStep dm n) : Decidable (s.InTime a) :=
  match a with
  | ⟨.dispatch _ (.registered _), _⟩ => inferInstanceAs (Decidable (¬ _))
  | ⟨.worker _ _, _⟩ => inferInstanceAs (Decidable (_ → _ → ¬ _ ∧ ¬ _))
  | ⟨.dispatch _ (.renamed _), _⟩ | ⟨.dispatch _ (.connected _), _⟩
  | ⟨.dispatch _ (.disconnected _), _⟩ | ⟨.dispatch _ (.dealWon _), _⟩
  | ⟨.listener, _⟩ | ⟨.listenerThrows, _⟩ | ⟨.calculator, _⟩
  | ⟨.announcerStops, _⟩ | ⟨.signalError, _⟩ => .isTrue trivial

def fresh : LiveSession .lp64 1 :=
  { session := .start .lp64 1 0, jobQueue := oneWorker, userData := {},
    iterationData := {} }

theorem init_fresh : (machine .lp64 1).init fresh :=
  ⟨0, Nat.one_pos, {}, {}, nofun, rfl⟩

def registering : List (SessionStep .lp64 1) :=
  Session.opening ++ List.replicate 3 .listener ++
    [.dispatch 0 (.registered ⟨⟨1⟩, []⟩), .calculator]

/-- The listener switches to the other buffer, and the user connects. -/
def connecting : List (SessionStep .lp64 1) :=
  List.replicate 6 .listener ++ [.dispatch 0 (.connected ⟨1⟩)]

def undropped (steps : List (SessionStep .lp64 1)) : List (LiveStep .lp64 1) :=
  steps.map fun thread => { thread }

/-- The worker handles the promise after he has slept through the
recalculation. -/
def handledAfter : List (LiveStep .lp64 1) :=
  undropped (registering ++ [.calculator] ++ connecting ++ [.calculator] ++
    List.replicate 6 (.worker 0 .proceed) ++ List.replicate 13 .calculator ++
    List.replicate 7 (.worker 0 .proceed) ++ [.worker 0 .job])

theorem handledAfter_recognized :
    ∃ s, (machine .lp64 1).schedule fresh handledAfter = some s ∧
      (s.handled.map fun h => (h.promise, h.registeredBefore)) =
        [((1, false), true)] ∧
      ∀ h ∈ s.handled, h.registeredBefore = true → h.place ≠ none := by
  obtain ⟨s, hs⟩ : ∃ s, (machine .lp64 1).schedule fresh handledAfter =
    some s := ⟨_, rfl⟩
  refine ⟨s, hs, ?_, registered_recognized (Machine.run_of_schedule handledAfter
    init_fresh (by decide) hs)⟩
  cases hs
  rfl

/-- He is in the drain loop when the buffers are exchanged, and gets to the
promise before he goes to sleep. -/
def handledBefore : List (LiveStep .lp64 1) :=
  undropped (registering ++ List.replicate 3 (.worker 0 .proceed) ++
    connecting ++ [.worker 0 .job])

theorem handledBefore_unrecognized :
    ¬ ∀ s : LiveSession .lp64 1, (machine .lp64 1).Reachable s →
      ∀ h ∈ s.handled, h.registeredBefore = true → h.place ≠ none := by
  intro h
  obtain ⟨s, hs⟩ : ∃ s, (machine .lp64 1).schedule fresh handledBefore =
    some s := ⟨_, rfl⟩
  have hreachable := Machine.reachable_of_schedule handledBefore init_fresh hs
  have hhandled : s.handled = [⟨(1, false), true, none⟩] := by
    cases hs
    rfl
  exact h s hreachable _ (hhandled ▸ List.mem_singleton_self _) rfl rfl

end LiveSession

end RatingService
