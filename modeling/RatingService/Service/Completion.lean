import RatingService.Framework.Reaching
import RatingService.Service.DeliveredJobs
import RatingService.Service.Quickening
import Mathlib.Data.Prod.Lex

/-!
# A recalculation comes to its end

In a session that nothing disturbs, a recalculation under way can always be
completed, whatever is in the queues: the workers serve what they have and go
to sleep, the listener releases the buffer behind the next message. Without
another message it can be completed just where the listener does not hold the
calculator up.

- §1: how much is left to do.
- §2: the steps that lessen it.
- §3: what the threads do in an undisturbed session.
- §4: completion, with and without another message.
-/

namespace RatingService

open Runs Machine

variable {dm : DataModel} {n : ℕ}

/-! ## §1  What is left -/

def QueuePack.size (pack : QueuePack) : ℕ :=
  pack.errorQueue.length + pack.userIdPromiseQueue.length +
    pack.userDataQueue.length

namespace JobQueue

def size (q : JobQueue n) : ℕ := ∑ w, (q.queues w).size

variable {q q' : JobQueue n} {w : Fin n}

theorem size_update {pack : QueuePack} (h : pack.size < (q.queues w).size) :
    size { q with queues := Function.update q.queues w pack } < q.size := by
  refine Finset.sum_lt_sum (fun v _ => ?_) ⟨w, Finset.mem_univ w, ?_⟩
  · dsimp only
    by_cases heq : v = w
    · rw [heq, Function.update_self]
      exact h.le
    · rw [Function.update_of_ne heq]
  · dsimp only
    rw [Function.update_self]
    exact h

theorem size_dequeueError {e : GenericProtocolError}
    (h : q.dequeueError w = (some e, q')) : q'.size < q.size := by
  obtain ⟨rest, hqueue, rfl⟩ := dequeueError_some h
  refine size_update ?_
  simp [QueuePack.size, hqueue]

theorem size_dequeueUserData {p : UserRef}
    (h : q.dequeueUserData w = (some p, q')) : q'.size < q.size := by
  obtain ⟨rest, hqueue, rfl⟩ := dequeueUserData_some h
  refine size_update ?_
  simp [QueuePack.size, hqueue]

theorem size_dequeueUserIdPromise {promise : UserIdPromise}
    (h : q.dequeueUserIdPromise w = (promise, q')) :
    q'.size ≤ q.size ∧ (promise.1 ≠ invalidId → q'.size < q.size) := by
  unfold dequeueUserIdPromise at h
  split at h <;> cases h
  · exact ⟨le_rfl, fun hne => absurd rfl hne⟩
  · next rest hqueue =>
    have hlt : size { q with
        queues := Function.update q.queues w
          { q.queues w with userIdPromiseQueue := rest } } < q.size :=
      size_update (by simp [QueuePack.size, hqueue])
    exact ⟨hlt.le, fun _ => hlt⟩

end JobQueue

namespace AnnouncingSession

/-- **The rank**: the calculator's way first, then that of the others, with
what is in the queues. -/
def rank (s : AnnouncingSession dm n) : ℕ ×ₗ ℕ :=
  toLex (s.session.calculator.rank, s.session.rest + s.live.jobQueue.size)

variable {s s' : AnnouncingSession dm n}

theorem rank_lt_of_calculator
    (h : s'.session.calculator.rank < s.session.calculator.rank) :
    s'.rank < s.rank :=
  Prod.Lex.toLex_lt_toLex.mpr (.inl h)

theorem rank_lt_of_rest (hcalc : s'.session.calculator = s.session.calculator)
    (h : s'.session.rest + s'.live.jobQueue.size <
      s.session.rest + s.live.jobQueue.size) : s'.rank < s.rank :=
  Prod.Lex.toLex_lt_toLex.mpr (.inr ⟨congrArg CalculatorPc.rank hcalc, h⟩)

/-! ## §2  Steps -/

theorem thread_eq {a : LiveStep dm n} {session : Session dm n}
    {live : LiveSession dm n} (hstep : s.session.step a.thread = some session)
    (hwork : s.live.work a = some live) :
    s.thread a = some { s with live := { live with session } } := by
  rw [thread, LiveSession.step, hstep, hwork]
  rfl

def Breaks (s : AnnouncingSession dm n) : Prop :=
  s.live.recalculate s.announcer.dropOldRating = none

/-- **The calculator's step**, if he has not to wait. -/
theorem lowers_calculator (hcalled : s.announcer.pc = .recalculated)
    (hcalc : s.session.calculator ≠ .announcing) (hbreaks : ¬ s.Breaks)
    (h : ∃ session, s.session.recalculate = some session ∧
      session.calculator.rank < s.session.calculator.rank) :
    ∃ s', s.step (.announcer 0 []) = some s' ∧
      s.session.recalculate = some s'.session ∧ s'.rank < s.rank := by
  obtain ⟨session, hrec, hlt⟩ := h
  obtain ⟨live, hlive⟩ := Option.ne_none_iff_exists'.mp hbreaks
  have hthread := thread_eq (a := ⟨.calculator, s.announcer.dropOldRating⟩) hrec
    hlive
  refine ⟨{ s with
    live := { live with session }
    reported := s.reported ++ s.live.reportedErrors }, ?_, hrec,
    rank_lt_of_calculator hlt⟩
  show s.doWork 0 [] = _
  rw [doWork, hcalled]
  dsimp only
  rw [if_neg hcalc, calculate, hthread]
  rfl

/-- **The listener's step.** -/
theorem lowers_listener (hpc : s.session.listener.pc ≠ .startingAnnouncer)
    (h : s.session.Quickens .listener) :
    ∃ s', s.step (.listener 0) = some s' ∧ s.session.run = some s'.session ∧
      s'.rank < s.rank := by
  obtain ⟨session, hrun, hcalc, hlt⟩ := h
  refine ⟨{ s with live := { s.live with session } }, ?_, hrun,
    rank_lt_of_rest hcalc (Nat.add_lt_add_right hlt _)⟩
  rw [step, if_neg hpc]
  exact thread_eq hrun rfl

theorem lowers_dispatch (h : s.session.Quickens (.dispatch 0 (.disconnected {}))) :
    ∃ s', s.step (.dispatch 0 ⟨.disconnected {}, trivial⟩) = some s' ∧
      s'.rank < s.rank := by
  obtain ⟨session, hstep, hcalc, hlt⟩ := h
  exact ⟨{ s with live := { s.live with session } }, thread_eq hstep rfl,
    rank_lt_of_rest hcalc (Nat.add_lt_add_right hlt _)⟩

theorem lowers_proceed {w : Fin n} (h : s.session.Quickens (.worker w .proceed))
    {s₁ : AnnouncingSession dm n} (hwork : s.work w .proceed = some s₁)
    (hsame : s₁.live = s.live) {live : LiveSession dm n}
    (hdrain : s.live.drain w .proceed = some live)
    (hsize : live.jobQueue.size ≤ s.live.jobQueue.size) :
    ∃ s', s.step (.worker w .proceed) = some s' ∧
      s.session.step (.worker w .proceed) = some s'.session ∧
      s'.rank < s.rank := by
  obtain ⟨session, hstep, hcalc, hlt⟩ := h
  have hthread : s₁.thread ⟨.worker w .proceed, false⟩ =
      some { s₁ with live := { live with session } } := by
    refine thread_eq ?_ ?_
    · rw [AnnouncingSession.session, hsame]
      exact hstep
    · rw [hsame]
      exact hdrain
  refine ⟨{ s₁ with live := { live with session } }, ?_, hstep,
    rank_lt_of_rest hcalc (Nat.add_lt_add_of_lt_of_le hlt hsize)⟩
  rw [step, hwork]
  exact hthread

theorem lowers_job {w : Fin n}
    (hpc : s.session.workers w ∈ [.errors, .promises, .depleting, .userData])
    {s₁ : AnnouncingSession dm n} (hwork : s.work w .job = some s₁)
    (hsame : s₁.session = s.session) {live : LiveSession dm n}
    (hdrain : s₁.live.drain w .job = some live)
    (hsize : live.jobQueue.size < s.live.jobQueue.size) :
    ∃ s', s.step (.worker w .job) = some s' ∧
      s.session.step (.worker w .job) = some s'.session ∧
      s'.rank < s.rank := by
  have hstep : s.session.step (.worker w .job) = some { s.session with
      workers := Function.update s.session.workers w (s.session.workers w) } := by
    simp only [List.mem_cons, List.not_mem_nil, or_false] at hpc
    rcases hpc with hpc | hpc | hpc | hpc <;>
      simp [Session.step, RatingService.doWork, hpc]
  rw [Function.update_eq_self] at hstep
  have hthread : s₁.thread ⟨.worker w .job, false⟩ =
      some { s₁ with live := { live with session := s.session } } := by
    refine thread_eq ?_ hdrain
    rw [hsame]
    exact hstep
  refine ⟨{ s₁ with live := { live with session := s.session } }, ?_, hstep,
    rank_lt_of_rest rfl (Nat.add_lt_add_left hsize _)⟩
  rw [step, hwork]
  exact hthread

def Helps (s : AnnouncingSession dm n) (w : Fin n) : Prop :=
  ∃ action s', action ≠ .throws ∧ s.step (.worker w action) = some s' ∧
    s.session.step (.worker w action) = some s'.session ∧ s'.rank < s.rank

theorem helps_of_proceed {w : Fin n}
    (h : ∃ s', s.step (.worker w .proceed) = some s' ∧
      s.session.step (.worker w .proceed) = some s'.session ∧
      s'.rank < s.rank) : s.Helps w := by
  obtain ⟨s', hs'⟩ := h
  exact ⟨.proceed, s', by simp, hs'⟩

theorem helps_of_job {w : Fin n}
    (h : ∃ s', s.step (.worker w .job) = some s' ∧
      s.session.step (.worker w .job) = some s'.session ∧
      s'.rank < s.rank) : s.Helps w := by
  obtain ⟨s', hs'⟩ := h
  exact ⟨.job, s', by simp, hs'⟩

theorem drain_elsewhere {l : LiveSession dm n} {w : Fin n}
    {action : WorkerAction} (hpc : l.session.workers w ≠ .promises) :
    l.drain w action = some l :=
  if_neg hpc

theorem helps_promises {w : Fin n} (h : s.session.Quickens (.worker w .proceed))
    (hpc : s.session.workers w = .promises) : s.Helps w := by
  cases hqueue : s.live.jobQueue.dequeueUserIdPromise w with
  | mk promise jobQueue =>
    obtain ⟨hle, hlt⟩ := JobQueue.size_dequeueUserIdPromise hqueue
    by_cases hempty : promise.1 = invalidId
    · have hwork : s.work w .proceed = some s := by
        simp only [work, hpc]
        rfl
      have hdrain : s.live.drain w .proceed = some { s.live with
          jobQueue
          known := Function.update s.live.known w (s.live.known w).tail } := by
        rw [LiveSession.drain, if_pos hpc, hqueue]
        exact if_pos hempty
      exact helps_of_proceed (lowers_proceed h hwork rfl hdrain hle)
    · have hwork : s.work w .job =
          some (s.serve w (.userIdPromise promise)) := by
        simp only [work, hpc, hqueue]
        rfl
      have hdrain : s.live.drain w .job = some { s.live with
          jobQueue
          known := Function.update s.live.known w (s.live.known w).tail
          handled := s.live.handled ++
            [{ promise
               registeredBefore := (s.live.known w).headD false
               place := s.live.userData.processRating promise }] } := by
        rw [LiveSession.drain, if_pos hpc, hqueue]
        exact if_pos hempty
      exact helps_of_job (lowers_job (by simp [hpc]) hwork rfl hdrain
        (hlt hempty))

theorem helps_errors {w : Fin n} (h : s.session.Quickens (.worker w .proceed))
    (hpc : s.session.workers w = .errors) : s.Helps w := by
  have hne : s.session.workers w ≠ .promises := by simp [hpc]
  cases hqueue : s.live.jobQueue.dequeueError w with
  | mk error jobQueue =>
    cases error with
    | none =>
        have hwork : s.work w .proceed = some s := by
          simp only [work, hpc, drainErrors, hqueue]
        exact helps_of_proceed
          (lowers_proceed h hwork rfl (drain_elsewhere hne) le_rfl)
    | some error =>
        have hwork : s.work w .job = some ({ s with
            live := { s.live with jobQueue } }.serve w (.error error)) := by
          simp only [work, hpc, drainErrors, hqueue]
        exact helps_of_job (lowers_job (by simp [hpc]) hwork rfl
          (drain_elsewhere hne) (JobQueue.size_dequeueError hqueue))

theorem helps_userData {w : Fin n}
    (h : s.session.Quickens (.worker w .proceed))
    (hpc : s.session.workers w = .depleting ∨
      s.session.workers w = .userData) : s.Helps w := by
  have hne : s.session.workers w ≠ .promises := by
    rcases hpc with hpc | hpc <;> simp [hpc]
  have hwork : ∀ action, s.work w action = s.depleteUserDataMessages w action := by
    intro action
    rcases hpc with hpc | hpc <;> simp only [work, hpc]
  cases hqueue : s.live.jobQueue.dequeueUserData w with
  | mk userData jobQueue =>
    cases userData with
    | none =>
        have hdone : s.work w .proceed = some s := by
          simp only [hwork, depleteUserDataMessages, hqueue]
        exact helps_of_proceed
          (lowers_proceed h hdone rfl (drain_elsewhere hne) le_rfl)
    | some userData =>
        have hserve : s.work w .job = some ({ s with
            live := { s.live with jobQueue } }.serve w
              (.userData userData)) := by
          simp only [hwork, depleteUserDataMessages, hqueue]
        exact helps_of_job (lowers_job
          (by rcases hpc with hpc | hpc <;> simp [hpc]) hserve rfl
          (drain_elsewhere hne) (JobQueue.size_dequeueUserData hqueue))

/-- **A worker's step**: he serves what his queue has, else he goes on. -/
theorem helps_worker {w : Fin n}
    (h : s.session.Quickens (.worker w .proceed)) : s.Helps w := by
  by_cases hqueues : s.session.workers w ∈
      [.errors, .promises, .depleting, .userData]
  · simp only [List.mem_cons, List.not_mem_nil, or_false] at hqueues
    rcases hqueues with hpc | hpc | hpc
    · exact helps_errors h hpc
    · exact helps_promises h hpc
    · exact helps_userData h hpc
  · have hne : s.session.workers w ≠ .promises := by
      intro hpc
      exact hqueues (by simp [hpc])
    have hwork : ∃ buffers, s.work w .proceed = some { s with buffers } := by
      cases hpc : s.session.workers w
      all_goals simp only [work, hpc]
      case errors | promises | depleting | userData =>
        exact absurd (by simp [hpc]) hqueues
      case starting | caching => exact ⟨_, rfl⟩
      all_goals exact ⟨s.buffers, rfl⟩
    obtain ⟨buffers, hwork⟩ := hwork
    exact helps_of_proceed
      (lowers_proceed h hwork rfl (drain_elsewhere hne) le_rfl)

/-! ## §3  The threads of an undisturbed session -/

/-- Nothing is thrown, and no error is signalled. -/
def Undisturbed (_ : AnnouncingSession dm n) : AnnouncingStep dm n → Prop
  | .listenerThrows | .worker _ .throws | .signalError => False
  | _ => True

instance (s : AnnouncingSession dm n) (a : AnnouncingStep dm n) :
    Decidable (s.Undisturbed a) :=
  match a with
  | .listenerThrows | .worker _ .throws | .signalError => .isFalse id
  | .listener _ | .dispatch _ _ | .announcer _ _ | .worker _ .proceed
  | .worker _ .job => .isTrue trivial

def Silent (s : AnnouncingSession dm n) : AnnouncingStep dm n → Prop
  | .listener _ => s.session.listener.pc ≠ .building
  | a => s.Undisturbed a

theorem thread_session {a : LiveStep dm n} (hs : s.thread a = some s') :
    s.session.step a.thread = some s'.session := by
  obtain ⟨live, hlive, rfl⟩ := thread_cases hs
  obtain ⟨session, hsession, hlive⟩ := Option.bind_eq_some_iff.mp hlive
  obtain ⟨l, -, hlive⟩ := Option.bind_eq_some_iff.mp hlive
  cases hlive
  exact hsession

/-- A step of a session's threads that a step of the whole comes down to. -/
def Amounts (s s' : AnnouncingSession dm n) (a : AnnouncingStep dm n) : Prop :=
  ∃ b, s.session.step b = some s'.session ∧
    (s.Undisturbed a → s.session.Undisturbed b) ∧
    (s.Silent a → s.session.Silent b)

/-- **Seen from the threads**, a step is one of theirs or none. -/
theorem step_session {a : AnnouncingStep dm n} (hs : s.step a = some s') :
    s'.session = s.session ∨ s.Amounts s' a := by
  cases a with
  | listener now =>
      refine .inr ⟨.listener, ?_, fun _ => trivial, id⟩
      rw [step] at hs
      split at hs
      · obtain ⟨s₁, htick, hlisten⟩ := Option.bind_eq_some_iff.mp hs
        obtain ⟨announcer, -, rfl⟩ := tick_cases htick
        exact thread_session hlisten
      · exact thread_session hs
  | dispatch second msg =>
      exact .inr ⟨_, thread_session hs, fun _ => trivial, fun _ => trivial⟩
  | listenerThrows => exact .inr ⟨_, thread_session hs, id, id⟩
  | signalError => exact .inr ⟨_, thread_session hs, id, id⟩
  | announcer now order =>
      rcases doWork_cases hs with ⟨p, rest, -, -, rfl⟩ | ⟨second, -, -, -, -, rfl⟩ |
        hcalculates | hticks | ⟨announcer, live, hlive, -, -, rfl⟩
      · exact .inl rfl
      · exact .inl rfl
      · obtain ⟨-, announcer, live, hlive, rfl, -, -⟩ := hcalculates
        obtain ⟨hrec, -⟩ := LiveSession.step_calculator hlive
        exact .inr ⟨.calculator, hrec, fun _ => trivial, fun _ => trivial⟩
      · cases hticks <;> exact .inl rfl
      · obtain ⟨hstop, -⟩ := LiveSession.step_frame (by simp) hlive
        exact .inr ⟨.announcerStops, hstop, fun _ => trivial, fun _ => trivial⟩
  | worker w action =>
      obtain ⟨s₁, hwork, hthread⟩ := Option.bind_eq_some_iff.mp hs
      have hsame : s₁.session = s.session := by
        rcases work_cases hwork with ⟨rfl, -, -⟩ | ⟨-, -, rfl⟩ |
          ⟨-, -, job, jobQueue, -, rfl⟩ <;> rfl
      have hstep := thread_session hthread
      rw [hsame] at hstep
      refine .inr ⟨.worker w action, hstep, fun hC => ?_, fun hC => ?_⟩ <;>
        cases action <;> exact hC

/-- **What an undisturbed session keeps**, its announcer once started. -/
structure Going (s : AnnouncingSession dm n) : Prop where
  maintained : s.Maintained
  smooth : s.session.Smooth
  started : s.session.calculator ≠ .notStarted

theorem smooth_step {a : AnnouncingStep dm n} (h : s.session.Smooth)
    (hC : s.Undisturbed a) (hs : s.step a = some s') : s'.session.Smooth := by
  rcases step_session hs with hsame | ⟨b, hb, hundisturbed, -⟩
  · rw [hsame]
    exact h
  · exact h.step (hundisturbed hC) hb

theorem Going.step {a : AnnouncingStep dm n} (h : s.Going) (hC : s.Undisturbed a)
    (hs : s.step a = some s') : s'.Going := by
  refine ⟨h.maintained.step hs, smooth_step h.smooth hC hs, ?_⟩
  rcases step_session hs with hsame | ⟨b, hb, -, -⟩
  · rw [hsame]
    exact h.started
  by_cases hcalc : b = .calculator
  · subst hcalc
    exact (Session.goes_recalculate hb).2.1
  · rcases Session.calculator_step hcalc hb with hsame | hnew | hnew
    · rw [hsame]
      exact h.started
    · simp [hnew]
    · simp [hnew]

theorem going_of_run {steps : List (AnnouncingStep dm n)}
    (hrun : (machine dm n).Run Undisturbed steps s)
    (hstarted : s.session.calculator ≠ .notStarted) : s.Going := by
  suffices h : s.Maintained ∧ s.session.Smooth from ⟨h.1, h.2, hstarted⟩
  apply hrun.invariant
  · intro s hs
    refine ⟨maintained_init hs, ?_⟩
    obtain ⟨count, h, promiseIndex, d, it, announcer, -, -, -, rfl⟩ := hs
    exact Session.smooth_start count
  · rintro s a s' ⟨hmaintained, hsmooth⟩ hC hs
    exact ⟨hmaintained.step hs, smooth_step hsmooth hC hs⟩

/-! ## §4  Completion -/

theorem Going.busy (h : s.Going) (hcalc : s.session.calculator ≠ .announcing) :
    ¬ s.session.calculator.Calm ∧ 0 < s.session.calculator.rank := by
  have hstarted := h.started
  have hgoes := h.smooth.goes
  cases hpc : s.session.calculator
  all_goals rw [hpc] at hcalc hstarted hgoes
  case notStarted => exact absurd rfl hstarted
  case announcing => exact absurd rfl hcalc
  case stopped => exact absurd rfl hgoes
  case reading taken stage =>
    exact ⟨id, by cases stage <;> simp [CalculatorPc.rank]⟩
  case clearing taken stage =>
    exact ⟨id, by cases stage <;> simp [CalculatorPc.rank]⟩
  all_goals exact ⟨id, by simp [CalculatorPc.rank]⟩

/-- A step that is taken without another message, if the calculator is not
held up, and does not hold it up. -/
def Unaided (s s' : AnnouncingSession dm n) (a : AnnouncingStep dm n) : Prop :=
  ¬ s.session.Stalled → s.Silent a ∧ ¬ s'.session.Stalled

theorem Going.lowers_waiting (h : s.Going) {taken : Fin 2}
    (hawaits : s.session.calculator.Awaits taken)
    (hclaim : s.session.listener.claim = some taken) :
    ∃ a s', s.Undisturbed a ∧ s.step a = some s' ∧ s'.rank < s.rank ∧
      s.Unaided s' a := by
  have hstarted : s.session.listener.pc ≠ .startingAnnouncer := by
    intro hpc
    exact h.started (h.smooth.notStarted (by rw [hpc]; trivial)).1
  by_cases hpc : s.session.listener.pc.Leaves
  · obtain ⟨s', hs', hrun, hlt⟩ := lowers_listener hstarted
      (h.smooth.quickens_leaving hawaits hclaim hpc)
    refine ⟨.listener 0, s', trivial, hs', hlt, fun _ => ⟨?_, ?_⟩⟩
    · intro hbuilding
      rw [hbuilding] at hpc
      exact hpc
    · exact h.smooth.not_stalled_of_leaving hawaits hclaim hpc hrun
  · have hstalled : s.session.Stalled := ⟨taken, hawaits, hclaim, hpc⟩
    rcases h.smooth.quickens_listener hawaits hclaim with hlistener | hmessage
    · obtain ⟨s', hs', -, hlt⟩ := lowers_listener hstarted hlistener
      exact ⟨.listener 0, s', trivial, hs', hlt, fun hnot => absurd hstalled hnot⟩
    · obtain ⟨s', hs', hlt⟩ := lowers_dispatch hmessage
      exact ⟨.dispatch 0 ⟨.disconnected {}, trivial⟩, s', trivial, hs', hlt,
        fun hnot => absurd hstalled hnot⟩

/-- **Somebody** can always help a recalculation on. -/
theorem Going.lowers (h : s.Going) (hcalc : s.session.calculator ≠ .announcing)
    (hbreaks : ¬ s.Breaks) :
    ∃ a s', s.Undisturbed a ∧ s.step a = some s' ∧ s'.rank < s.rank ∧
      s.Unaided s' a := by
  obtain ⟨hbusy, hworks⟩ := h.busy hcalc
  by_cases hwriters : ∀ taken, s.session.calculator = .awaitingWriters taken →
      s.session.bufferWriterCount taken = 0
  · rcases h.smooth.quickens_inside hworks hwriters with hcalculator | ⟨w, hw⟩
    · obtain ⟨s', hs', hrec, hlt⟩ := lowers_calculator
        (h.maintained.called hbusy) hcalc hbreaks hcalculator
      obtain ⟨hlistener, -⟩ := Session.recalculate_frame hrec
      exact ⟨.announcer 0 [], s', trivial, hs', hlt, fun hstalled => ⟨trivial,
        Session.not_stalled_of_frame hlistener
          (Session.awaits_recalculate hrec hcalc) hstalled⟩⟩
    · obtain ⟨action, s', haction, hs', hstep, hlt⟩ := helps_worker hw
      have hC : s.Undisturbed (.worker w action) := by
        cases action
        case throws => exact absurd rfl haction
        all_goals trivial
      refine ⟨_, s', hC, hs', hlt, fun hstalled => ⟨hC, ?_⟩⟩
      obtain ⟨⟨sync, pc⟩, -, hsame⟩ := Option.map_eq_some_iff.mp hstep
      rw [← hsame]
      exact hstalled
  · obtain ⟨taken, hwriters⟩ := not_forall.mp hwriters
    obtain ⟨hcalc₀, hcount⟩ := Classical.not_imp.mp hwriters
    refine h.lowers_waiting (show s.session.calculator.Awaits taken from ?_) ?_
    · rw [hcalc₀]
      rfl
    · rw [h.smooth.ordered.writers] at hcount
      by_contra hclaim
      exact hcount (if_neg hclaim)

/-- The calculator is through, unless the batch cannot be worked in. -/
def Completed (s : AnnouncingSession dm n) : Prop :=
  s.session.calculator = .announcing ∨ s.Breaks

/-- **A recalculation can always be completed**: whatever an undisturbed
session has come to, and whatever waits in its queues, its threads can go on so
that the announcer is back at the announcements. -/
theorem recalculation_completes {steps : List (AnnouncingStep dm n)}
    (hrun : (machine dm n).Run Undisturbed steps s)
    (hstarted : s.session.calculator ≠ .notStarted) :
    (machine dm n).Reaches Undisturbed s Completed := by
  refine (reaches_of_rank (I := Going) rank (fun s h hgoal => ?_) s
    (going_of_run hrun hstarted)).mono fun s' hs' => hs'.2
  obtain ⟨hcalc, hbreaks⟩ := not_or.mp hgoal
  obtain ⟨a, s', hC, hs', hlt, -⟩ := h.lowers hcalc hbreaks
  exact ⟨a, s', hC, hs', h.step hC hs', hlt⟩

theorem Silent.undisturbed {a : AnnouncingStep dm n} (h : s.Silent a) :
    s.Undisturbed a := by
  cases a
  case listener => trivial
  all_goals exact h

/-- **Where the calculator is held up**, it stays so. -/
theorem Going.stalled_step {a : AnnouncingStep dm n} (h : s.Going)
    (hstalled : s.session.Stalled) (hC : s.Silent a) (hs : s.step a = some s') :
    s'.session.Stalled := by
  rcases step_session hs with hsame | ⟨b, hb, -, hsilent⟩
  · rw [hsame]
    exact hstalled
  · exact h.smooth.stalled_step hstalled (hsilent hC) hb

/-- **A recalculation may need a message**: without another one it can be
completed just where the listener does not hold the calculator up. -/
theorem completes_silently_iff {steps : List (AnnouncingStep dm n)}
    (hrun : (machine dm n).Run Undisturbed steps s)
    (hstarted : s.session.calculator ≠ .notStarted) :
    (machine dm n).Reaches Silent s Completed ↔ ¬ s.session.Stalled := by
  have hgoing := going_of_run hrun hstarted
  constructor
  · intro hreaches hstalled
    refine not_reaches_of_trap (I := fun s => s.Going ∧ s.session.Stalled) ?_ ?_
      ⟨hgoing, hstalled⟩ hreaches
    · rintro s a s' ⟨h, hstalled⟩ hC hs
      exact ⟨h.step hC.undisturbed hs, h.stalled_step hstalled hC hs⟩
    · rintro s ⟨-, taken, hawaits, -⟩ (hcalc | hbreaks)
      · rw [hcalc] at hawaits
        exact hawaits
      · -- nothing is worked in as yet
        rw [Breaks, LiveSession.recalculate] at hbreaks
        split at hbreaks
        · next hcalc =>
          rw [hcalc] at hawaits
          exact hawaits
        · cases hbreaks
  · intro hstalled
    refine (reaches_of_rank (I := fun s => s.Going ∧ ¬ s.session.Stalled) rank
      (fun s hinv hgoal => ?_) s ⟨hgoing, hstalled⟩).mono fun s' hs' => hs'.2
    obtain ⟨h, hstalled⟩ := hinv
    obtain ⟨hcalc, hbreaks⟩ := not_or.mp hgoal
    obtain ⟨a, s', hC, hs', hlt, hunaided⟩ := h.lowers hcalc hbreaks
    obtain ⟨hsilent, hstalled'⟩ := hunaided hstalled
    exact ⟨a, s', hsilent, hs', ⟨h.step hC hs', hstalled'⟩, hlt⟩

/-! ### The listener waits for a message, and the calculator for the listener -/

def untilHeldUp : List (AnnouncingStep .lp64 2) :=
  untilUnrecognized ++ announces 4 4 ++ listens 1 4

theorem untilHeldUp_completes :
    ∃ s, (machine .lp64 2).schedule lastSecond untilHeldUp = some s ∧
      (machine .lp64 2).Reaches Undisturbed s Completed := by
  obtain ⟨s, hs⟩ : ∃ s, (machine .lp64 2).schedule lastSecond untilHeldUp =
    some s := ⟨_, rfl⟩
  have hstarted : s.session.calculator ≠ .notStarted := by
    cases hs
    nofun
  exact ⟨s, hs, recalculation_completes
    (Machine.run_of_schedule _ init_lastSecond (by decide) hs) hstarted⟩

theorem untilHeldUp_needs_message :
    ∃ s, (machine .lp64 2).schedule lastSecond untilHeldUp = some s ∧
      ¬ (machine .lp64 2).Reaches Silent s Completed := by
  obtain ⟨s, hs⟩ : ∃ s, (machine .lp64 2).schedule lastSecond untilHeldUp =
    some s := ⟨_, rfl⟩
  have hstarted : s.session.calculator ≠ .notStarted := by
    cases hs
    nofun
  have hstalled : s.session.Stalled := by
    cases hs
    exact ⟨0, rfl, rfl, id⟩
  refine ⟨s, hs, fun hreaches => ?_⟩
  exact (completes_silently_iff (Machine.run_of_schedule _ init_lastSecond
    (by decide) hs) hstarted).mp hreaches hstalled

end AnnouncingSession

end RatingService
