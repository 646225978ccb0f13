import RatingService.Service.DeliveredJobs

/-!
# Frames from the current rating

A worker looks through pointers that were enqueued before, and sends packs out
of a buffer he filled before. Both are sound while a recalculation has every
worker in its wait, his queue of pointers emptied on the way there. A worker
that sleeps through the end of a recalculation into the next one has not
emptied his queue again, and a weekly drop frees what is in it.

- §1: a worker on his way into the wait.
- §2: the invariant.
- §3: the threads' steps.
- §4: the announcer's steps.
- §5: a worker's jobs.
- §6: runs, and a run with a pointer that leads nowhere.
-/

namespace RatingService

open Runs RatingBufferData

variable {dm : DataModel} {n : ℕ}

/-! ## §1  On the way into the wait -/

namespace WorkerPc

/-- The flag was found set, and the worker is counted still. -/
def Leaving : WorkerPc → Prop
  | .depleting | .locking | .leavingData => True
  | _ => False

/-- Between the emptied queue and the end of the wait. -/
def Departed : WorkerPc → Prop
  | .locking | .leavingData | .testing | .waiting | .relocking => True
  | _ => False

def InWait : WorkerPc → Prop
  | .testing | .waiting | .relocking => True
  | _ => False

/-- The buffer has been filled since the last wait. -/
def Serving : WorkerPc → Prop
  | .checkingFlag | .checkingRefresh | .depleting | .errors | .promises
  | .userData => True
  | _ => False

instance : DecidablePred InWait := fun pc => by
  cases pc <;> unfold InWait <;> infer_instance

variable {pc : WorkerPc}

theorem Departed.leaving_or_inWait (h : pc.Departed) :
    pc.Leaving ∨ pc.InWait := by
  cases pc <;> first | exact h.elim | exact .inl trivial | exact .inr trivial

theorem Asleep.departed (h : pc.Asleep) (hfailed : pc ≠ .failed) :
    pc.Departed := by
  cases pc <;> first | exact h.elim | trivial

theorem Asleep.not_serving (h : pc.Asleep) : ¬ pc.Serving := by
  cases pc <;> first | exact h.elim | exact id

theorem Asleep.not_leaving (h : pc.Asleep) : ¬ pc.Leaving := by
  cases pc <;> first | exact h.elim | exact id

end WorkerPc

section DoWork

variable {sync sync' : CoreDataSyncBlock} {pc pc' : WorkerPc}
  {action : WorkerAction}

theorem doWork_leaving (h : doWork sync pc action = some (sync', pc'))
    (hpc' : pc'.Leaving) :
    pc.Leaving ∨ sync.refreshInProgress = true := by
  unfold doWork at h
  split at h
  all_goals try split at h
  all_goals cases h
  all_goals first | exact hpc'.elim | exact .inl trivial | exact .inr ‹_›

theorem doWork_departed (h : doWork sync pc action = some (sync', pc'))
    (hpc' : pc'.Departed) :
    pc.Departed ∨ pc = .depleting ∧ action = .proceed := by
  unfold doWork at h
  split at h
  all_goals try split at h
  all_goals cases h
  all_goals first
    | exact hpc'.elim
    | exact .inl trivial
    | exact .inr ⟨rfl, rfl⟩

theorem doWork_serving (h : doWork sync pc action = some (sync', pc'))
    (hpc' : pc'.Serving) :
    pc.Serving ∨ (pc = .starting ∨ pc = .caching) ∧ action = .proceed := by
  unfold doWork at h
  split at h
  all_goals try split at h
  all_goals cases h
  all_goals first
    | exact hpc'.elim
    | exact .inl trivial
    | exact .inr ⟨.inl rfl, rfl⟩
    | exact .inr ⟨.inr rfl, rfl⟩

theorem doWork_not_failed (h : doWork sync pc action = some (sync', pc')) :
    pc ≠ .failed := by
  rintro rfl
  cases action <;> cases h

end DoWork

namespace Session

variable {s s' : Session dm n}

/-- **What a step does to a worker**: nothing, it launches him, or it is his
own. -/
theorem worker_step {a : SessionStep dm n} (hordered : s.Ordered)
    (hs : s.step a = some s') (w : Fin n) :
    s'.workers w = s.workers w ∨
    s.workers w = .notLaunched ∧ s'.workers w = .starting ∨
    ∃ action sync, a = .worker w action ∧
      doWork s.sync (s.workers w) action = some (sync, s'.workers w) := by
  cases a with
  | listener =>
      cases hpc : s.listener.pc
      all_goals simp only [step, run, hpc, reduceCtorEq] at hs
      case launching i =>
        split at hs
        · next hi =>
          cases hs
          by_cases hw : w = ⟨i, hi⟩
          · refine .inr (.inl ⟨?_, hw ▸ Function.update_self ..⟩)
            cases hordered.phase with
            | idle hpc₀ =>
                rw [hpc] at hpc₀
                exact hpc₀.elim
            | starting hpc₀ => cases hpc.symm.trans hpc₀
            | counting _ _ hlaunch => exact hlaunch i hpc w (hw ▸ le_rfl)
          · exact .inl (Function.update_of_ne hw ..)
        · cases hs
          exact .inl rfl
      all_goals try split at hs
      all_goals
        cases hs
        exact .inl rfl
  | dispatch second msg =>
      obtain ⟨-, hs⟩ := Option.ite_none_right_eq_some.mp hs
      cases hs
      exact .inl rfl
  | listenerThrows =>
      obtain ⟨-, hs⟩ := Option.ite_none_right_eq_some.mp hs
      cases hs
      exact .inl rfl
  | calculator =>
      obtain ⟨-, hworkers, -, -⟩ := recalculate_frame hs
      exact .inl (congrFun hworkers w)
  | announcerStops =>
      obtain ⟨-, hs⟩ := Option.ite_none_right_eq_some.mp hs
      cases hs
      exact .inl rfl
  | worker w' action =>
      obtain ⟨⟨sync, pc⟩, hwork, hs⟩ := Option.map_eq_some_iff.mp hs
      cases hs
      by_cases hw : w = w'
      · subst hw
        exact .inr (.inr ⟨action, sync, rfl, by simpa using hwork⟩)
      · exact .inl (Function.update_of_ne hw ..)
  | signalError =>
      cases hs
      exact .inl rfl

theorem flag_step {a : SessionStep dm n} (ha : a ≠ .calculator)
    (hs : s.step a = some s') :
    s'.sync.refreshInProgress = s.sync.refreshInProgress := by
  cases a with
  | listener => exact (run_frame hs).1
  | calculator => exact absurd rfl ha
  | worker w action =>
      obtain ⟨⟨sync, pc⟩, hwork, hs⟩ := Option.map_eq_some_iff.mp hs
      cases hs
      exact (doWork_spec hwork).2.1
  | dispatch _ _ | listenerThrows | announcerStops =>
      obtain ⟨-, hs⟩ := Option.ite_none_right_eq_some.mp hs
      cases hs
      rfl
  | signalError =>
      cases hs
      rfl

/-- The flag is set behind the exchange only. -/
theorem flag_of_recalculate (hrec : s.recalculate = some s')
    (hflag : s'.sync.refreshInProgress = true) :
    (∃ taken, s.calculator = .exchanged taken) ∨
      s.sync.refreshInProgress = true := by
  cases hpc : s.calculator
  all_goals simp only [recalculate, hpc, reduceCtorEq] at hrec
  case exchanged taken => exact .inl ⟨taken, rfl⟩
  all_goals try split at hrec
  all_goals cases hrec
  all_goals first | exact .inr hflag | cases hflag

/-- While the flag is not set nobody is on his way out: the calculator has
every worker asleep when it resets it. -/
theorem leaving_step {a : SessionStep dm n} (h : s.Excluding)
    (hleaving : s.sync.refreshInProgress = false →
      ∀ w, ¬ (s.workers w).Leaving)
    (hC : s.NobodyReturning a) (hs : s.step a = some s')
    (hflag : s'.sync.refreshInProgress = false) (w : Fin n) :
    ¬ (s'.workers w).Leaving := by
  have hset : s.sync.refreshInProgress = false →
      ¬ (s'.workers w).Leaving := by
    intro hclear
    rcases worker_step h.ordered hs w with hsame | ⟨-, hlaunched⟩ |
      ⟨action, sync, -, hwork⟩
    · rw [hsame]
      exact hleaving hclear w
    · rw [hlaunched]
      exact id
    · intro hleft
      rcases doWork_leaving hwork hleft with hbefore | htrue
      · exact hleaving hclear w hbefore
      · rw [hclear] at htrue
        cases htrue
  by_cases ha : a = .calculator
  · subst ha
    have hafter := (h.step hC hs).flag
    rw [hflag] at hafter
    cases hpc : s.calculator
    all_goals have hbefore := h.flag
    all_goals rw [hpc] at hbefore
    all_goals first | exact hset hbefore | skip
    case awaitingWriters | awaitingReaders =>
      simp only [step, recalculate, hpc] at hs
      split at hs
      all_goals
        cases hs
        first | cases hafter | (rw [hpc] at hafter; cases hafter)
    all_goals
      -- past the readers everybody is asleep
      obtain ⟨-, hworkers, -, -⟩ := recalculate_frame hs
      rw [hworkers]
      exact (h.quiet (hpc ▸ trivial) w).not_leaving
  · exact hset ((flag_step ha hs).symm.trans hflag)

end Session

/-! ## §2  The invariant -/

theorem CalculatorPc.Calm.not_refreshing {pc : CalculatorPc} (h : pc.Calm) :
    pc.refreshing = false := by
  cases pc <;> first | exact h.elim | rfl

/-- **The right frame** has been made of the job. -/
structure ServedJob.Right (served : ServedJob dm) : Prop where
  servable : served.tables.Servable
  answered : ∃ frame, served.frame = .ok frame ∧
    served.job.AnsweredBy served.tables frame

/-- The worker's buffers are there, and hold the present top of the rating
when it may be sent. -/
def BuffersFit (d : CoreRatingData dm) (pc : WorkerPc)
    (buffers : Outcome WorkerBuffers) : Prop :=
  ∃ b, buffers = .ok b ∧ b.ErrorReady ∧ b.ratingBuffer.Adapted ∧
    (pc.Serving → Cached d.standings b.ratingBuffer)

namespace AnnouncingSession

/-- The threads' part of the invariant. -/
structure Orderly (s : AnnouncingSession dm n) : Prop where
  maintained : s.Maintained
  excluding : s.session.Excluding
  leaving : s.session.sync.refreshInProgress = false →
    ∀ w, ¬ (s.session.workers w).Leaving

/-- **The invariant**: a worker that is not gone has only pointers to objects,
and none while the recalculation that drops the rating is at work. -/
structure Coherent (s : AnnouncingSession dm n) : Prop where
  orderly : s.Orderly
  bundle : ∀ userBundle, s.userBundle = some userBundle →
    ∀ p ∈ userBundle, s.tables.Live p
  queued : ∀ w, s.session.workers w ≠ .failed →
    ∀ p ∈ (s.queue w).userDataQueue, s.tables.Live p
  emptied : s.session.sync.refreshInProgress = true →
    s.announcer.dropOldRating = true →
    ∀ w, (s.session.workers w).Departed → (s.queue w).userDataQueue = []
  fit : ∀ w, BuffersFit s.tables (s.session.workers w) (s.buffers w)
  served : ∀ w, ∀ served ∈ s.served w, served.Right

/-- Every worker is back from the wait, and counted, when a recalculation goes
past the readers; when it is going to drop the rating, already when it sets
the flag. -/
def Timely (s : AnnouncingSession dm n) : AnnouncingStep dm n → Prop
  | .announcer _ _ => s.session.NobodyReturning .calculator ∧
      ∀ taken, s.session.calculator = .exchanged taken →
        s.announcer.dropOldRating = true →
        ∀ w, ¬ (s.session.workers w).InWait
  | _ => True

variable {s s' : AnnouncingSession dm n}

theorem coherent_init (hs : (machine dm n).init s) : s.Coherent := by
  have hmaintained := maintained_init hs
  obtain ⟨count, h, promiseIndex, d, it, announcer, -, -, -, rfl⟩ := hs
  refine ⟨⟨hmaintained, Session.excluding_start count, fun _ _ => id⟩, nofun,
    ?_, ?_, ?_, nofun⟩
  · exact fun _ _ => nofun
  · exact fun _ _ _ => False.elim
  · exact fun _ => ⟨{}, rfl, WorkerBuffers.errorReady_create,
      RatingBufferData.adapted_create, False.elim⟩

/-- A step that leaves the data alone, and makes no worker's buffer or queue
count for more than before. -/
theorem Coherent.frame (h : s.Coherent) (horderly : s'.Orderly)
    (hdata : s.live.SameData s'.live) (hbuffers : s'.buffers = s.buffers)
    (hserved : s'.served = s.served)
    (hbundle : ∀ userBundle, s'.userBundle = some userBundle →
      s.userBundle = some userBundle)
    (hemptied : s'.session.sync.refreshInProgress = true →
      s'.announcer.dropOldRating = true →
      ∀ w, (s'.session.workers w).Departed → (s.queue w).userDataQueue = [])
    (hworkers : ∀ w, s'.session.workers w = s.session.workers w ∨
      s.session.workers w = .notLaunched ∧
        s'.session.workers w = .starting) : s'.Coherent where
  orderly := horderly
  bundle := by
    intro userBundle hsome
    rw [tables, hdata.userData]
    exact h.bundle userBundle (hbundle userBundle hsome)
  queued := by
    intro w hw
    rw [tables, queue, hdata.userData, hdata.userDataQueue]
    refine h.queued w fun hfailed => ?_
    rcases hworkers w with hsame | ⟨hbefore, -⟩
    · exact hw (hsame.trans hfailed)
    · cases hbefore.symm.trans hfailed
  emptied := by
    intro hflag hdrop w hw
    rw [queue, hdata.userDataQueue]
    exact hemptied hflag hdrop w hw
  fit := by
    intro w
    rw [hbuffers, tables, hdata.userData]
    obtain ⟨b, hb, herror, hrating, hcached⟩ := h.fit w
    refine ⟨b, hb, herror, hrating, fun hserving => hcached ?_⟩
    rcases hworkers w with hsame | ⟨-, hafter⟩
    · exact hsame ▸ hserving
    · rw [hafter] at hserving
      exact hserving.elim
  served := by
    rw [hserved]
    exact h.served

/-! ## §3  The threads' steps -/

theorem Orderly.step {a : SessionStep dm n} (h : s.Orderly)
    (hmaintained : s'.Maintained) (hC : s.session.NobodyReturning a)
    (hs : s.session.step a = some s'.session) : s'.Orderly :=
  ⟨hmaintained, h.excluding.step hC hs,
    Session.leaving_step h.excluding h.leaving hC hs⟩

/-- A step of the listener's thread, or of nobody's. The announcer may be
started with it, or stopped. -/
theorem Coherent.listener (h : s.Coherent) {a : SessionStep dm n}
    {live : LiveSession dm n} {announcer : Announcer}
    (hmaintained :
      ({ s with live, announcer } : AnnouncingSession dm n).Maintained)
    (hlive : s.live.step ⟨a, false⟩ = some live)
    (ha : a ≠ .calculator) (hw : ∀ w action, a ≠ .worker w action)
    (hannouncer : announcer = s.announcer ∨ live.session.calculator.Calm) :
    ({ s with live, announcer } : AnnouncingSession dm n).Coherent := by
  obtain ⟨hsession, hdata⟩ := LiveSession.step_frame ha hlive
  have hC : s.session.NobodyReturning a := by
    cases a with
    | calculator => exact absurd rfl ha
    | listener | dispatch | listenerThrows | announcerStops | worker
    | signalError => trivial
  have hworkers : ∀ w, live.session.workers w = s.session.workers w ∨
      s.session.workers w = .notLaunched ∧
        live.session.workers w = .starting := by
    intro w
    rcases Session.worker_step h.orderly.excluding.ordered hsession w with
      hsame | hlaunched | ⟨action, -, hown, -⟩
    · exact .inl hsame
    · exact .inr hlaunched
    · exact absurd hown (hw w action)
  refine h.frame (h.orderly.step hmaintained hC hsession) hdata rfl rfl
    (fun _ => id) ?_ hworkers
  intro hflag hdrop w hdeparted
  rcases hannouncer with rfl | hcalm
  · refine h.emptied ((Session.flag_step ha hsession).symm.trans hflag) hdrop w ?_
    rcases hworkers w with hsame | ⟨-, hlaunched⟩
    · exact hsame ▸ hdeparted
    · rw [show WorkerPc.Departed _ = _ from congrArg _ hlaunched] at hdeparted
      exact hdeparted.elim
  · have hsame := (h.orderly.excluding.step hC hsession).flag
    rw [hcalm.not_refreshing] at hsame
    cases hsame.symm.trans hflag

/-! ## §4  The announcer's steps -/

theorem Orderly.not_flag (h : s.Orderly) (hcalm : s.session.calculator.Calm) :
    s.session.sync.refreshInProgress ≠ true := by
  rw [h.excluding.flag, hcalm.not_refreshing]
  exact Bool.false_ne_true

theorem Coherent.ticks (h : s.Coherent) (hmaintained : s'.Maintained)
    (hs : s.Ticks s') : s'.Coherent := by
  have hcalm : s.session.calculator.Calm := by
    refine h.orderly.maintained.calm fun hcalled => ?_
    cases hs with
    | begins _ hcalc => exact hcalc
    | nextSecond hpc => cases hpc.symm.trans hcalled
    | ends hpc => cases hpc.symm.trans hcalled
    | outside hpc => exact absurd (by simp [hcalled]) hpc
  have horderly : s'.session = s.session → s'.Orderly := fun hsame =>
    ⟨hmaintained, hsame ▸ h.orderly.excluding, hsame ▸ h.orderly.leaving⟩
  have hframe : s'.live = s.live → s'.buffers = s.buffers →
      s'.served = s.served →
      (∀ rest, s'.userBundle = some rest → s.userBundle = some rest) →
      s'.Coherent := by
    intro hlive hbuffers hserved hbundle
    have hsession := congrArg LiveSession.session hlive
    refine h.frame (horderly hsession) ?_ hbuffers hserved hbundle ?_
      fun w => .inl (by rw [session, hsession])
    · rw [hlive]
      exact LiveSession.SameData.refl _
    · intro hflag
      rw [session, hsession] at hflag
      exact absurd hflag (h.orderly.not_flag hcalm)
  cases hs with
  | begins | outside => exact hframe rfl rfl rfl fun _ => id
  | nextSecond | ends =>
      exact hframe rfl rfl rfl fun _ hnone => by cases hnone

theorem Coherent.load (h : s.Coherent) {second : Fin 60}
    {order : List UserRef}
    (hmaintained :
      ({ s with userBundle := some order } : AnnouncingSession dm n).Maintained)
    (horder : Enumerates order (s.live.iterationData.usersOnline second)) :
    ({ s with userBundle := some order } : AnnouncingSession dm n).Coherent :=
  { h with
    orderly := ⟨hmaintained, h.orderly.excluding, h.orderly.leaving⟩
    bundle := by
      rintro userBundle ⟨⟩ p hp
      have hmem := List.mem_toFinset.mpr hp
      rw [horder.2] at hmem
      exact ((hmaintained.settled.consistent.buckets second p).mp hmem).live }

theorem Coherent.announce (h : s.Coherent) {p : UserRef} {rest : List UserRef}
    (hmaintained : (s.announce p rest).Maintained)
    (hpc : s.announcer.pc = .announcing)
    (hbundle : s.userBundle = some (p :: rest)) :
    (s.announce p rest).Coherent := by
  obtain ⟨hp, hrest⟩ := List.forall_mem_cons.mp (h.bundle _ hbundle)
  have hcalm := h.orderly.maintained.calm fun hcalled => by
    rw [hpc] at hcalled
    cases hcalled
  refine ⟨⟨hmaintained, h.orderly.excluding, h.orderly.leaving⟩, ?_, ?_, ?_,
    h.fit, h.served⟩
  · rintro userBundle ⟨⟩
    exact hrest
  · intro w hw q hq
    rw [queue, AnnouncingSession.announce,
      JobQueue.userDataQueue_enqueueUserData] at hq
    split at hq
    · rcases List.mem_append.mp hq with hq | hq
      · exact h.queued w hw q hq
      · rw [List.mem_singleton.mp hq]
        exact hp
    · exact h.queued w hw q hq
  · intro hflag
    exact absurd hflag (h.orderly.not_flag hcalm)

/-- **The calculator** works a batch in, or does nothing to the data. -/
theorem Coherent.calculates (h : s.Coherent) {now : ℤ} {order : List UserRef}
    (hmaintained : s'.Maintained) (hC : s.Timely (.announcer now order))
    (hs : s.Calculates s') : s'.Coherent := by
  obtain ⟨hcalled, announcer, live, hlive, rfl, -, hdrop'⟩ := hs
  obtain ⟨hrec, hdata⟩ := LiveSession.step_calculator hlive
  have horderly := h.orderly.step (a := .calculator) hmaintained hC.1 hrec
  have hsettled := h.orderly.maintained.settled
  have hbatch := h.orderly.maintained.batch
  have hnone := h.orderly.maintained.bundle
    (by rcases hcalled with h | h <;> simp [h])
  obtain ⟨-, hworkers, -, -⟩ := Session.recalculate_frame hrec
  have hworkers : ∀ w, live.session.workers w = s.session.workers w :=
    congrFun hworkers
  rcases hdata with ⟨hdata, -⟩ | ⟨taken, c, hcalc, hc, hlive'⟩
  · refine h.frame horderly hdata rfl rfl (fun _ => id) ?_
      fun w => .inl (hworkers w)
    · intro hflag hdrop w hdeparted
      replace hdrop : s.announcer.dropOldRating = true := hdrop'.symm.trans hdrop
      replace hdeparted : (s.session.workers w).Departed :=
        hworkers w ▸ hdeparted
      rcases Session.flag_of_recalculate hrec hflag with ⟨taken, hcalc⟩ | hset
      · -- nobody is in the wait when the flag is set
        have hclear : s.session.sync.refreshInProgress = false := by
          rw [h.orderly.excluding.flag, hcalc]
          rfl
        rcases hdeparted.leaving_or_inWait with hleaving | hwait
        · exact absurd hleaving (h.orderly.leaving hclear w)
        · exact absurd hwait (hC.2 taken hcalc hdrop w)
      · exact h.emptied hset hdrop w hdeparted
  · -- everybody is asleep
    have hasleep : ∀ w, (s.session.workers w).Asleep :=
      h.orderly.excluding.quiet (hcalc ▸ trivial)
    have hflag : s.session.sync.refreshInProgress = true := by
      rw [h.orderly.excluding.flag, hcalc]
      rfl
    have hqueue : ∀ w, (c.jobQueue.queues w).userDataQueue =
        (s.queue w).userDataQueue := fun w =>
      RatingCalculatorImpl.jobQueue_recalculate
        (f := fun q => (q.queues w).userDataQueue)
        (fun q error => JobQueue.userDataQueue_enqueueErrorJob q error w) hc
    have hdata : live.userData = c.userData ∧
        live.iterationData = c.iterationData ∧
        live.jobQueue = c.jobQueue := by
      rw [hlive']
      exact ⟨rfl, rfl, rfl⟩
    obtain ⟨huserData, hiterationData, hjobQueue⟩ := hdata
    refine ⟨horderly, ?_, ?_, ?_, ?_, h.served⟩
    · intro userBundle hsome
      cases hnone.symm.trans hsome
    · intro w hw p hp
      rw [queue, hjobQueue, hqueue] at hp
      rw [tables, huserData]
      have hpresent : s.session.workers w ≠ .failed := (hworkers w) ▸ hw
      cases hdrop : s.announcer.dropOldRating with
      | true =>
          rw [h.emptied hflag hdrop w ((hasleep w).departed hpresent)] at hp
          cases hp
      | false =>
          rw [hdrop] at hc
          exact RatingCalculatorImpl.live_recalculate
            (s := .create s.tables s.live.iterationData s.session.batch
              s.live.jobQueue)
            hsettled.consistent.disjoint hbatch.seconds
            (h.queued w hpresent p hp) hc
    · intro _ hdrop w hdeparted
      rw [queue, hjobQueue, hqueue]
      exact h.emptied hflag (hdrop'.symm.trans hdrop) w (hworkers w ▸ hdeparted)
    · intro w
      obtain ⟨b, hb, herror, hrating, -⟩ := h.fit w
      refine ⟨b, hb, herror, hrating, fun hserving => ?_⟩
      rw [session, hworkers w] at hserving
      exact absurd hserving (hasleep w).not_serving

/-! ## §5  A worker's jobs -/

/-- A step of a worker, once it is known what it does to his buffers and that
it takes nothing into a queue. -/
theorem Coherent.own_step (h : s.Coherent) {w : Fin n} {action : WorkerAction}
    {s₁ : AnnouncingSession dm n} {live : LiveSession dm n}
    (hmaintained : ({ s₁ with live } : AnnouncingSession dm n).Maintained)
    (hsession : s₁.session = s.session) (htables : s₁.tables = s.tables)
    (hannouncer : s₁.announcer = s.announcer)
    (hbundle : s₁.userBundle = s.userBundle)
    (hlive : s₁.live.step ⟨.worker w action, false⟩ = some live)
    (hqueue : ∀ w', ∀ p ∈ (s₁.queue w').userDataQueue,
      p ∈ (s.queue w').userDataQueue)
    (hempty : s.session.workers w = .depleting → action = .proceed →
      (s₁.queue w).userDataQueue = [])
    (hfit : ∀ w', BuffersFit s.tables (live.session.workers w')
      (s₁.buffers w'))
    (hserved : ∀ w', ∀ served ∈ s₁.served w', served.Right) :
    ({ s₁ with live } : AnnouncingSession dm n).Coherent := by
  obtain ⟨hstep, hdata⟩ := LiveSession.step_frame (by simp) hlive
  replace hstep : s.session.step (.worker w action) = some live.session :=
    hsession ▸ hstep
  have huserData : live.userData = s.tables := hdata.userData.trans htables
  have hworker := Session.worker_step h.orderly.excluding.ordered hstep
  have hflag : live.session.sync.refreshInProgress =
      s.session.sync.refreshInProgress := Session.flag_step (by simp) hstep
  have hnil : ∀ w', (s.queue w').userDataQueue = [] →
      (s₁.queue w').userDataQueue = [] := by
    intro w' hnil
    refine List.eq_nil_iff_forall_not_mem.mpr fun p hp => ?_
    have hmem := hqueue w' p hp
    rw [hnil] at hmem
    cases hmem
  refine ⟨h.orderly.step (a := .worker w action) hmaintained trivial hstep, ?_,
    ?_, ?_, ?_, hserved⟩
  · intro userBundle hsome
    rw [tables, huserData]
    exact h.bundle userBundle (hbundle.symm.trans hsome)
  · intro w' hpresent p hp
    rw [queue, hdata.userDataQueue] at hp
    rw [tables, huserData]
    refine h.queued w' (fun hfailed => ?_) p (hqueue w' p hp)
    rcases hworker w' with hsame | ⟨hbefore, -⟩ | ⟨action', sync, -, hwork⟩
    · exact hpresent (hsame.trans hfailed)
    · cases hbefore.symm.trans hfailed
    · exact doWork_not_failed hwork hfailed
  · intro hset hdrop w' hdeparted
    rw [queue, hdata.userDataQueue]
    rw [hannouncer] at hdrop
    have hbefore := h.emptied (hflag.symm.trans hset) hdrop w'
    rcases hworker w' with hsame | ⟨-, hlaunched⟩ | ⟨action', sync, hown, hwork⟩
    · exact hnil w' (hbefore (hsame ▸ hdeparted))
    · rw [session, hlaunched] at hdeparted
      exact hdeparted.elim
    · cases hown
      rcases doWork_departed hwork hdeparted with hstill | ⟨hpc, haction⟩
      · exact hnil w (hbefore hstill)
      · exact hempty hpc haction
  · intro w'
    rw [tables, huserData]
    exact hfit w'

theorem Coherent.fit_own (h : s.Coherent) {w w' : Fin n}
    {action : WorkerAction} {session : Session dm n}
    (hs : s.session.step (.worker w action) = some session)
    (hcaching : w' = w → s.session.workers w = .starting ∨
      s.session.workers w = .caching → action ≠ .proceed) :
    BuffersFit s.tables (session.workers w') (s.buffers w') := by
  obtain ⟨b, hb, herror, hrating, hcached⟩ := h.fit w'
  refine ⟨b, hb, herror, hrating, fun hserving => hcached ?_⟩
  rcases Session.worker_step h.orderly.excluding.ordered hs w' with
    hsame | ⟨-, hlaunched⟩ | ⟨action', sync, hown, hwork⟩
  · exact hsame ▸ hserving
  · rw [hlaunched] at hserving
    exact hserving.elim
  · cases hown
    rcases doWork_serving hwork hserving with hstill | ⟨hpc, haction⟩
    · exact hstill
    · exact absurd haction (hcaching rfl hpc)

theorem Coherent.safe (h : s.Coherent) {w : Fin n} {job : WorkerJob}
    {jobQueue : JobQueue n} (hpresent : s.session.workers w ≠ .failed)
    (htakes : Takes s.live.jobQueue w job jobQueue) : job.Safe s.tables := by
  cases job with
  | error e => trivial
  | userIdPromise promise => trivial
  | userData p =>
      obtain ⟨rest, hqueue, -⟩ := JobQueue.dequeueUserData_some htakes
      refine h.queued w hpresent p ?_
      rw [queue, hqueue]
      exact List.mem_cons_self

theorem Takes.userDataQueue_subset {q q' : JobQueue n} {w : Fin n}
    {job : WorkerJob} (h : Takes q w job q') (w' : Fin n) :
    ∀ p ∈ (q'.queues w').userDataQueue, p ∈ (q.queues w').userDataQueue := by
  intro p hp
  rw [h.queues.1 w']
  split
  · exact List.mem_append_right _ hp
  · exact hp

/-- **A step of a worker.** -/
theorem Coherent.worker (h : s.Coherent) {w : Fin n} {action : WorkerAction}
    (hmaintained : s'.Maintained) (hs : s.step (.worker w action) = some s') :
    s'.Coherent := by
  have hservable := h.orderly.maintained.settled.servable
  obtain ⟨s₁, hwork, hthread⟩ := Option.bind_eq_some_iff.mp hs
  obtain ⟨live, hlive, rfl⟩ := thread_cases hthread
  have hsteps : ∀ {l : LiveSession dm n},
      l.step ⟨.worker w action, false⟩ = some live → l.session = s.session →
      s.session.step (.worker w action) = some live.session :=
    fun hl hsame => hsame ▸ (LiveSession.step_frame (by simp) hl).1
  rcases work_cases hwork with ⟨rfl, hnil, hcaching⟩ |
    ⟨hpc, rfl, rfl⟩ | ⟨hpc, haction, job, jobQueue, htakes, rfl⟩
  · refine h.own_step hmaintained rfl rfl rfl rfl hlive (fun _ _ => id)
      (fun hpc _ => hnil (.inl hpc)) ?_ h.served
    intro w'
    exact h.fit_own (hsteps hlive rfl) fun _ => hcaching
  · -- the top of the rating is cached
    have hstep := hsteps hlive rfl
    refine h.own_step hmaintained rfl rfl rfl rfl hlive (fun _ _ => id)
      (fun hpc' => ?_) (fun w' => ?_) h.served
    · rcases hpc with hpc | hpc <;> cases hpc.symm.trans hpc'
    · dsimp only
      by_cases hw : w' = w
      · subst hw
        obtain ⟨b, hb, herror, hrating, -⟩ := h.fit w'
        obtain ⟨b', hcache, hready⟩ :=
          WorkerBuffers.cache_ready hservable herror hrating
        rw [Function.update_self, hb, ok_bind, hcache]
        exact ⟨b', rfl, hready.error, hready.rating.adapted,
          fun _ => hready.rating⟩
      · rw [Function.update_of_ne hw]
        exact h.fit_own hstep fun heq => absurd heq hw
  · -- a job
    have hstep := hsteps hlive rfl
    have hserving : (s.session.workers w).Serving := by
      simp only [List.mem_cons, List.not_mem_nil, or_false] at hpc
      rcases hpc with hpc | hpc | hpc | hpc <;> rw [hpc] <;> trivial
    have hpresent : s.session.workers w ≠ .failed := by
      intro hfailed
      rw [hfailed] at hserving
      exact hserving
    obtain ⟨b, hb, herror, -, hcached⟩ := h.fit w
    obtain ⟨frame, b', hprocess, hanswered, hready⟩ :=
      WorkerBuffers.process_ready hservable
        ⟨herror, hcached hserving⟩ (h.safe hpresent htakes)
    have hresult : (s.buffers w >>= fun b => b.process s.tables job) =
        .ok (frame, b') := by
      rw [hb, ok_bind, hprocess]
    refine h.own_step hmaintained rfl rfl rfl rfl hlive
      htakes.userDataQueue_subset (fun _ hproceed => absurd hproceed haction)
      (fun w' => ?_) (fun w' => ?_)
    · dsimp only [serve]
      by_cases hw : w' = w
      · subst hw
        rw [Function.update_self, hresult]
        exact ⟨b', rfl, hready.error, hready.rating.adapted,
          fun _ => hready.rating⟩
      · rw [Function.update_of_ne hw]
        refine h.fit_own hstep fun _ hpc' => ?_
        rcases hpc' with hpc' | hpc' <;> rw [hpc'] at hserving <;>
          exact hserving.elim
    · dsimp only [serve]
      by_cases hw : w' = w
      · subst hw
        rw [Function.update_self, hresult]
        intro served hserved
        rcases List.mem_append.mp hserved with hserved | hserved
        · exact h.served w' served hserved
        · rw [List.mem_singleton.mp hserved]
          exact ⟨hservable, frame, rfl, hanswered⟩
      · rw [Function.update_of_ne hw]
        exact h.served w'

/-- **One step.** -/
theorem Coherent.step {a : AnnouncingStep dm n} (h : s.Coherent)
    (hC : s.Timely a) (hs : s.step a = some s') : s'.Coherent := by
  have hmaintained := h.orderly.maintained.step hs
  have hthread : ∀ {a : SessionStep dm n}, s.thread ⟨a, false⟩ = some s' →
      a ≠ .calculator → (∀ w action, a ≠ .worker w action) → s'.Coherent := by
    intro a hs ha hw
    obtain ⟨live, hlive, rfl⟩ := thread_cases hs
    exact h.listener hmaintained hlive ha hw (.inl rfl)
  cases a with
  | listener now =>
      rw [AnnouncingSession.step] at hs
      split at hs
      · next hpc =>
        obtain ⟨s₁, htick, hlisten⟩ := Option.bind_eq_some_iff.mp hs
        obtain ⟨announcer, hannouncer, rfl⟩ := tick_cases htick
        obtain ⟨live, hlive, rfl⟩ := thread_cases hlisten
        obtain ⟨hrun, -⟩ := LiveSession.step_frame (by simp) hlive
        refine h.listener hmaintained hlive (by simp) (by simp) (.inr ?_)
        simp only [Session.step, Session.run, hpc, Option.some.injEq] at hrun
        rw [← hrun]
        exact trivial
      · exact hthread hs (by simp) (by simp)
  | dispatch second msg => exact hthread hs (by simp) (by simp)
  | listenerThrows => exact hthread hs (by simp) (by simp)
  | announcer now order =>
      rcases doWork_cases hs with ⟨p, rest, hpc, hbundle, rfl⟩ |
        ⟨second, -, -, -, horder, rfl⟩ | hcalculates | hticks |
        ⟨announcer, live, hlive, -, -, rfl⟩
      · exact h.announce hmaintained hpc hbundle
      · exact h.load hmaintained horder
      · exact h.calculates hmaintained hC hcalculates
      · exact h.ticks hmaintained hticks
      · obtain ⟨hstop, -⟩ := LiveSession.step_frame (by simp) hlive
        obtain ⟨-, hstop⟩ := Option.ite_none_right_eq_some.mp hstop
        refine h.listener hmaintained hlive (by simp) (by simp) (.inr ?_)
        rw [← Option.some.inj hstop]
        exact trivial
  | worker w action => exact h.worker hmaintained hs
  | signalError => exact hthread hs (by simp) (by simp)

/-! ## §6  Runs -/

theorem coherent_of_run {steps : List (AnnouncingStep dm n)}
    (hrun : (machine dm n).Run Timely steps s) : s.Coherent := by
  apply hrun.invariant
  · exact fun s hs => coherent_init hs
  · exact fun s a s' h hC hs => h.step hC hs

/-- **Every frame is made of the present tables**: in a run in which every
worker is back from his wait before the readers of the next recalculation are
counted, and before a recalculation that drops the rating sets its flag, no
worker looks through a pointer to an object that is gone, the top that a worker
sends is that of the present rating, and each job has got the frame it asks
for. The tables are
left as the next session needs them. -/
theorem frames_current {steps : List (AnnouncingStep dm n)}
    (hrun : (machine dm n).Run Timely steps s) :
    Settled s.tables s.live.iterationData ∧
      (∀ w, ∃ b, s.buffers w = .ok b ∧
        ((s.session.workers w).Serving →
          Cached s.tables.standings b.ratingBuffer)) ∧
      (∀ w, s.session.workers w ≠ .failed →
        ∀ p ∈ (s.queue w).userDataQueue, s.tables.Live p) ∧
      ∀ w, ∀ served ∈ s.served w, served.Right := by
  have hcoherent := coherent_of_run hrun
  refine ⟨hcoherent.orderly.maintained.settled, fun w => ?_, hcoherent.queued,
    hcoherent.served⟩
  obtain ⟨b, hb, -, -, hcached⟩ := hcoherent.fit w
  exact ⟨b, hb, hcached⟩

/-! ### Three users, connected at the last second of the minute -/

instance (s : AnnouncingSession dm n) (a : AnnouncingStep dm n) :
    Decidable (s.Timely a) :=
  match a with
  | .announcer _ _ => inferInstanceAs (Decidable (_ ∧ ∀ _, _ → _ → ∀ _, ¬ _))
  | .listener _ | .dispatch _ _ | .listenerThrows | .worker _ _
  | .signalError => .isTrue trivial

/-- The users are announced; the workers are back, send their errors and serve
the users. -/
def untilServed : List (AnnouncingStep .lp64 2) :=
  untilAsleep ++ announcesUsers 4 ++ works 6 0 ++ serves 2 0 ++ works 6 1 ++
    works 2 0 ++ serves 1 1 ++ serves 2 0 ++ works 2 1 ++ serves 1 1

theorem untilServed_right :
    ∃ s, (machine .lp64 2).schedule lastSecond untilServed = some s ∧
      (s.served 0).length = 4 ∧ (s.served 1).length = 2 ∧
      ∀ w, ∀ served ∈ s.served w, served.Right := by
  have hrun : ((machine .lp64 2).schedule lastSecond untilServed).map
      (fun s => ((s.served 0).length, (s.served 1).length)) = some (4, 2) := by
    decide +kernel
  obtain ⟨s, hs, hlengths⟩ := Option.map_eq_some_iff.mp hrun
  obtain ⟨hfirst, hsecond⟩ := Prod.mk.inj hlengths
  obtain ⟨-, -, -, hright⟩ := frames_current (Machine.run_of_schedule _
    init_lastSecond (by decide +kernel) hs)
  exact ⟨s, hs, hfirst, hsecond, hright⟩

/-- The worker sleeps through the end of this recalculation and through the
next one, behind which the user is announced again, and is still asleep when
the third one drops the rating. Then he wakes up. -/
def untilOverslept : List (AnnouncingStep .lp64 2) :=
  untilAsleep ++ announcesUsers 4 ++ announces 1 4 ++ announces 3 5 ++
    exchanges 5 ++ announces 14 5 ++ announces 118 5 ++ announcesUsers 5 ++
    announces 4 5 ++ exchanges 5 ++ announces 13 5 ++ works 6 0 ++
    serves 2 0 ++ works 2 0 ++ serves 1 0

def failures (s : AnnouncingSession dm n) (w : Fin n) : List Failure :=
  (s.served w).filterMap fun served =>
    match served.frame with
    | .ok _ => none
    | .error e => some e

theorem untilOverslept_dangles :
    ∃ s, (machine .lp64 2).Reachable s ∧
      s.failures 0 = [.danglingAccess] := by
  have hrun : ((machine .lp64 2).schedule lastSecond untilOverslept).map
      (fun s => s.failures 0) = some [.danglingAccess] := by
    decide +kernel
  obtain ⟨s, hs, hfailures⟩ := Option.map_eq_some_iff.mp hrun
  exact ⟨s, Machine.reachable_of_schedule _ init_lastSecond hs, hfailures⟩

end AnnouncingSession

end RatingService
