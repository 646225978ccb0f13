import RatingService.Service.DeliveredJobs
import RatingService.Test.BatchInTune
import RatingService.Test.Responses
import RatingService.Test.Validation

/-!
# Client and service in tune

The service's tables, batch and queues against the test client's storages: each
job in a queue is one the client agrees with when it is served.

- §1: the queues.
- §2: jobs the client agrees with.
- §3: client and service.
- §4: the client's steps.
- §5: what the client finds in a response.
-/

namespace RatingService

open ProtocolConstants RatingCalculatorImpl

variable {dm : DataModel} {n : ℕ}

/-! ## §1  The queues -/

def QueuePack.jobs (pack : QueuePack) : List WorkerJob :=
  pack.errorQueue.map .error ++ pack.userIdPromiseQueue.map .userIdPromise ++
    pack.userDataQueue.map .userData

inductive QueueKind where
  | errors
  | promises
  | userData

namespace JobQueue

/-- One turn of a loop's condition. A promise with the invalid id ends the
loop. -/
def takeJob (q : JobQueue n) (w : Fin n) :
    QueueKind → Option WorkerJob × JobQueue n
  | .errors =>
      let (error, q) := q.dequeueError w
      (error.map .error, q)
  | .promises =>
      let (promise, q) := q.dequeueUserIdPromise w
      (if promise.1 ≠ invalidId then some (.userIdPromise promise) else none, q)
  | .userData =>
      let (userData, q) := q.dequeueUserData w
      (userData.map .userData, q)

def All (P : WorkerJob → Prop) (q : JobQueue n) : Prop :=
  ∀ w, ∀ job ∈ (q.queues w).jobs, P job

variable {P P' : WorkerJob → Prop} {q q' : JobQueue n} {w : Fin n}

theorem all_create (h : 0 < n) : (create h).All P := by
  intro w job hjob
  cases hjob

theorem All.imp (h : q.All P) (himp : ∀ job, P job → P' job) : q.All P' :=
  fun w job hjob => himp job (h w job hjob)

theorem All.update (h : q.All P) {pack : QueuePack}
    (hqueues : q'.queues = Function.update q.queues w pack)
    (hpack : ∀ job ∈ pack.jobs, P job) : q'.All P := by
  intro w' job hjob
  rw [hqueues] at hjob
  by_cases hw : w' = w
  · subst hw
    rw [Function.update_self] at hjob
    exact hpack job hjob
  · rw [Function.update_of_ne hw] at hjob
    exact h w' job hjob

theorem All.enqueueErrorJob (h : q.All P) {error : GenericProtocolError}
    (herror : P (.error error)) : (q.enqueueErrorJob error).All P := by
  refine h.update rfl fun job hjob => ?_
  simp only [QueuePack.jobs, List.map_append, List.mem_append] at hjob
  rcases hjob with ((hjob | hjob) | hjob) | hjob
  · exact h q.errorIndex job (by simp [QueuePack.jobs, hjob])
  · rw [List.map_singleton, List.mem_singleton] at hjob
    exact hjob ▸ herror
  · exact h q.errorIndex job (by simp [QueuePack.jobs, hjob])
  · exact h q.errorIndex job (by simp [QueuePack.jobs, hjob])

theorem All.enqueuePromise (h : q.All P) {promise : UserIdPromise}
    (hpromise : P (.userIdPromise promise)) :
    (q.enqueuePromise promise).All P := by
  refine h.update rfl fun job hjob => ?_
  simp only [QueuePack.jobs, List.map_append, List.mem_append] at hjob
  rcases hjob with (hjob | hjob | hjob) | hjob
  · exact h q.promiseIndex job (by simp [QueuePack.jobs, hjob])
  · exact h q.promiseIndex job (by simp [QueuePack.jobs, hjob])
  · rw [List.map_singleton, List.mem_singleton] at hjob
    exact hjob ▸ hpromise
  · exact h q.promiseIndex job (by simp [QueuePack.jobs, hjob])

theorem All.enqueueUserData (h : q.All P) {userData : UserRef}
    (huserData : P (.userData userData)) :
    (q.enqueueUserData userData).All P := by
  refine h.update rfl fun job hjob => ?_
  simp only [QueuePack.jobs, List.map_append, List.mem_append] at hjob
  rcases hjob with (hjob | hjob) | hjob | hjob
  · exact h q.userDataIndex job (by simp [QueuePack.jobs, hjob])
  · exact h q.userDataIndex job (by simp [QueuePack.jobs, hjob])
  · exact h q.userDataIndex job (by simp [QueuePack.jobs, hjob])
  · rw [List.map_singleton, List.mem_singleton] at hjob
    exact hjob ▸ huserData

theorem All.foldl_enqueueErrorJob (h : q.All P)
    {errors : List GenericProtocolError} (herrors : ∀ e ∈ errors, P (.error e)) :
    (errors.foldl JobQueue.enqueueErrorJob q).All P := by
  induction errors generalizing q with
  | nil => exact h
  | cons e errors ih =>
      obtain ⟨he, herrors⟩ := List.forall_mem_cons.mp herrors
      exact ih (h.enqueueErrorJob he) herrors

theorem All.foldl_enqueueUserData (h : q.All P) {order : List UserRef}
    (horder : ∀ p ∈ order, P (.userData p)) :
    (order.foldl JobQueue.enqueueUserData q).All P := by
  induction order generalizing q with
  | nil => exact h
  | cons p order ih =>
      obtain ⟨hp, horder⟩ := List.forall_mem_cons.mp horder
      exact ih (h.enqueueUserData hp) horder

/-- **A job that is taken** was in a queue, and the others are still there. -/
theorem All.takeJob (h : q.All P) (w : Fin n) (kind : QueueKind) :
    (q.takeJob w kind).2.All P ∧
      ∀ job, (q.takeJob w kind).1 = some job → P job := by
  cases kind with
  | errors =>
      cases hqueue : (q.queues w).errorQueue with
      | nil =>
          simp only [JobQueue.takeJob, dequeueError, hqueue, Option.map_none]
          exact ⟨h, fun job hjob => by cases hjob⟩
      | cons e rest =>
          simp only [JobQueue.takeJob, dequeueError, hqueue, Option.map_some]
          refine ⟨h.update rfl fun job hjob => h w job ?_, fun job hjob => ?_⟩
          · simp only [QueuePack.jobs, List.mem_append] at hjob ⊢
            rw [hqueue]
            exact hjob.imp_left (Or.imp_left (List.mem_cons_of_mem _))
          · cases hjob
            exact h w _ (by simp [QueuePack.jobs, hqueue])
  | promises =>
      cases hqueue : (q.queues w).userIdPromiseQueue with
      | nil =>
          simp only [JobQueue.takeJob, dequeueUserIdPromise, hqueue]
          exact ⟨h, fun job hjob => by rw [if_neg (by decide)] at hjob; cases hjob⟩
      | cons p rest =>
          simp only [JobQueue.takeJob, dequeueUserIdPromise, hqueue]
          refine ⟨h.update rfl fun job hjob => h w job ?_, fun job hjob => ?_⟩
          · simp only [QueuePack.jobs, List.mem_append] at hjob ⊢
            rw [hqueue]
            exact hjob.imp_left (Or.imp_right (List.mem_cons_of_mem _))
          · obtain ⟨-, hjob⟩ := Option.ite_none_right_eq_some.mp hjob
            cases hjob
            exact h w _ (by simp [QueuePack.jobs, hqueue])
  | userData =>
      cases hqueue : (q.queues w).userDataQueue with
      | nil =>
          simp only [JobQueue.takeJob, dequeueUserData, hqueue, Option.map_none]
          exact ⟨h, fun job hjob => by cases hjob⟩
      | cons p rest =>
          simp only [JobQueue.takeJob, dequeueUserData, hqueue, Option.map_some]
          refine ⟨h.update rfl fun job hjob => h w job ?_, fun job hjob => ?_⟩
          · simp only [QueuePack.jobs, List.mem_append] at hjob ⊢
            rw [hqueue]
            exact hjob.imp_right (List.mem_cons_of_mem _)
          · cases hjob
            exact h w _ (by simp [QueuePack.jobs, hqueue])

end JobQueue

/-! ## §2  Jobs -/

/-- **A job the client agrees with**: an error about a made-up user; a promise
about one, or about a user of his whom the service knows or is about to know;
a pointer to an object. -/
def JobInTune (s : Strategy dm) (d : CoreRatingData dm) : WorkerJob → Prop
  | .error e => ∃ id : IdT, e = .userUnrecognized id ∧ id.toInt < 0
  | .userIdPromise promise =>
      promise.1.toInt < 0 ∧ promise.2 = false ∨
      (s.curMinData.index[promise.1]?).isSome ∧
        (promise.2 = true ∨ (d.userState promise.1).isRegistered)
  | .userData p => d.Live p

section Jobs

variable {s s' : Strategy dm} {d d' : CoreRatingData dm} {it : IterationData}
  {b : IncomingDataBuffer dm} {renames : List IdT} {q : JobQueue n}
  {job : WorkerJob}

theorem JobInTune.mono (h : JobInTune s d job)
    (hcur : ∀ id : IdT, (s.curMinData.index[id]?).isSome →
      (s'.curMinData.index[id]?).isSome)
    (hregistered : ∀ id, (d.userState id).isRegistered →
      (d'.userState id).isRegistered)
    (hlive : ∀ p, d.Live p → d'.Live p) : JobInTune s' d' job := by
  cases job with
  | error e => exact h
  | userIdPromise promise =>
      exact h.imp_right (And.imp (hcur _) (Or.imp_right (hregistered _)))
  | userData p => exact hlive p h

theorem JobInTune.safe (h : JobInTune s d job) : job.Safe d := by
  cases job with
  | error _ | userIdPromise _ => trivial
  | userData p => exact h

theorem JobInTune.reported (h : JobInTune s d job) : job.Reported := by
  cases job with
  | error e =>
      obtain ⟨id, rfl, -⟩ := h
      trivial
  | userIdPromise _ | userData _ => trivial

theorem all_dispatch (h : q.All (JobInTune s d)) (hs : s.InStep)
    (hs' : s'.InStep) (hbatch : BatchInTune s d b renames)
    {a : StrategyStep dm} {message : ClientMessage dm} (second : Fin 60)
    (heffect : s.Effect a s' (some message)) :
    (dispatch second b q message).2.All (JobInTune s' d) := by
  have hcounter : s.newUserId.toInt ≤ s'.newUserId.toInt := by
    cases heffect with
    | userRegistered hfit hid hcounter hcur hprev =>
        show _ ≤ (s.newUserId + 1).toInt
        rw [hcounter]
        exact (lt_add_one _).le
    | _ => exact le_rfl
  have hcur : ∀ id : IdT, (s.curMinData.index[id]?).isSome →
      (s'.curMinData.index[id]?).isSome := by
    intro id hid
    rw [hs.known] at hid
    rw [hs'.known]
    exact ⟨hid.1, hid.2.trans_le hcounter⟩
  have hkept : q.All (JobInTune s' d) :=
    h.imp fun job hjob => hjob.mono hcur (fun _ => id) fun _ => id
  cases heffect with
  | userConnected hu hv hcur' hprev =>
      refine hkept.enqueuePromise (.inr ⟨hcur _ (by rw [hu]; rfl), ?_⟩)
      rcases (hbatch.users _ _ _ hu hv).present with
        ⟨-, basic, age, hbasic, -⟩ | ⟨-, name, hregistered, -⟩
      · right
        rw [UserState.isRegistered_eq_isSome, hbasic]
        rfl
      · left
        rw [Std.TreeMap.contains_eq_isSome_getElem?, hregistered]
        rfl
  | fakeUser hmessage hfake =>
      unfold Strategy.fakeMessage at hmessage
      split at hmessage <;> cases hmessage
      · exact hkept
      · refine hkept.enqueuePromise (.inl ⟨hfake, ?_⟩)
        have hnone : s.curMinData.index[s.fakeId]? = none := by
          refine Option.not_isSome_iff_eq_none.mp fun hsome => ?_
          exact absurd ((hs.known _).mp hsome).1 (not_le.mpr hfake)
        dsimp only
        rw [Std.TreeMap.contains_eq_isSome_getElem?,
          (hbatch.strangers _ hnone).2]
        rfl
      · exact hkept
      · exact hkept
  | userRegistered _ _ _ _ _ | userRenamed _ _ _ _ _ _
  | userDisconnected _ _ _ _ | userDealWon _ _ _ _ => exact hkept

/-- **The errors of a recalculation** are about made-up users. -/
theorem reportedErrors_fake (hbatch : BatchInTune s d b renames)
    (hs : s.InStep) :
    ∀ e ∈ (create d it b q).reportedErrors,
      ∃ id : IdT, e = .userUnrecognized id ∧ id.toInt < 0 := by
  have hrecognizes : ∀ {id : IdT}, (create d it b q).recognizes id = false →
      id.toInt < s.newUserId.toInt → id.toInt < 0 := by
    intro id hid hlt
    by_contra hnonneg
    obtain ⟨u, hu⟩ := Option.isSome_iff_exists.mp
      ((hs.known id).mpr ⟨not_lt.mp hnonneg, hlt⟩)
    obtain ⟨v, hv, -⟩ := hs.sameUser_of_cur hu
    have hpresent : ((create d it b q).batchState false id).isRegistered :=
      BatchInTune.present_of_user (hbatch.users id u v hu hv)
    rw [isRegistered_batchState] at hpresent
    exact Bool.false_ne_true (hid.symm.trans hpresent)
  have hunrecognized : ∀ {V : Type} (m : Std.TreeMap IdT V),
      (∀ id : IdT, (m[id]?).isSome → id.toInt < s.newUserId.toInt) →
      ∀ e ∈ (create d it b q).unrecognized m,
        ∃ id : IdT, e = .userUnrecognized id ∧ id.toInt < 0 := by
    intro V m hm e he
    obtain ⟨entry, hentry, rfl⟩ := List.mem_map.mp he
    obtain ⟨hmem, hnot⟩ := List.mem_filter.mp hentry
    refine ⟨entry.1, rfl, hrecognizes ?_ (hm _ ?_)⟩
    · exact (Bool.not_eq_true' _).mp hnot
    · rw [Std.TreeMap.mem_toList_iff_getElem?_eq_some.mp hmem]
      rfl
  intro e he
  simp only [reportedErrors, List.mem_append] at he
  rcases he with ((he | he) | he) | he
  · -- nobody is registered twice
    obtain ⟨entry, hentry, rfl⟩ := List.mem_map.mp he
    obtain ⟨hmem, hknown⟩ := List.mem_filter.mp hentry
    have hregistered : b.usersRegistered[entry.1]? = some entry.2 :=
      Std.TreeMap.mem_toList_iff_getElem?_eq_some.mp hmem
    change (d.userState entry.1).isRegistered at hknown
    rw [UserState.isRegistered_eq_isSome] at hknown
    obtain ⟨u, hu⟩ := Option.isSome_iff_exists.mp ((hs.known entry.1).mpr
      (hbatch.known_of_registered hs (.inl hknown)))
    obtain ⟨v, hv, -⟩ := hs.sameUser_of_cur hu
    rcases (hbatch.users _ u v hu hv).present with ⟨hnone, -⟩ | ⟨hnone, -⟩
    · cases hregistered.symm.trans hnone
    · rw [hnone] at hknown
      cases hknown
  · exact hunrecognized _ (fun id hid => hbatch.mentioned id (.inl hid)) e he
  · exact hunrecognized _
      (fun id hid => hbatch.mentioned id (.inr (.inl hid))) e he
  · exact hunrecognized _
      (fun id hid => hbatch.mentioned id (.inr (.inr hid))) e he

end Jobs

/-! ## §3  Client and service -/

theorem IncomingDataDoubleBuffer.currentBuffer_setBuffer
    (d : IncomingDataDoubleBuffer dm) (buffer : IncomingDataBuffer dm) :
    (d.setBuffer d.currentBufferIndex buffer).currentBuffer = buffer :=
  Function.update_self ..

/-- **Client and service in tune**, with the renames of the present minute. -/
structure InTune (s : Strategy dm) (st : ServiceState dm n)
    (renames : List IdT) : Prop where
  inStep : s.InStep
  settled : Settled st.userData st.iterationData
  fits : st.incomingData.currentBuffer.Fits
  spare : ∀ i, i ≠ st.incomingData.currentBufferIndex →
    st.incomingData.buffers i = {}
  batch : BatchInTune s st.userData st.incomingData.currentBuffer renames
  queues : st.jobQueue.All (JobInTune s st.userData)
  rating : st.userData.rating.map UserRef.owner = s.prevMinData.rating
  room : s.newUserId.toInt + 11 < 2 ^ 31

theorem inTune_init (h : 0 < n) :
    InTune ({} : Strategy dm) { jobQueue := JobQueue.create h } [] where
  inStep := Strategy.inStep_init
  settled := settled_empty
  fits := IncomingDataBuffer.fits_empty
  spare := fun _ _ => rfl
  batch := by
    refine ⟨fun id u v hu => ?_, fun id _ => ⟨rfl, Std.TreeMap.getElem?_emptyc⟩,
      fun id => ?_, fun id hid => ?_, fun id a ha => ?_,
      fun id _ => Std.TreeMap.getElem?_emptyc, ?_⟩
    · cases Std.TreeMap.getElem?_emptyc.symm.trans hu
    · simp [IncomingDataDoubleBuffer.currentBuffer]
    · simp [IncomingDataDoubleBuffer.currentBuffer] at hid
    · cases Std.TreeMap.getElem?_emptyc.symm.trans ha
    · show (-2 ^ 31 : ℤ) < (0 : IdT).toInt
      decide
  queues := JobQueue.all_create h
  rating := rfl
  room := by
    show (0 : IdT).toInt + 11 < 2 ^ 31
    decide

section Steps

variable {s s' : Strategy dm} {st : ServiceState dm n} {renames : List IdT}

/-! ## §4  The client's steps -/

theorem Strategy.Effect.nameFits {a : StrategyStep dm}
    {message : ClientMessage dm} (h : s.Effect a s' (some message)) :
    message.NameFits := by
  cases h with
  | userRegistered hfit _ _ _ _ => exact hfit
  | userRenamed _ hfit _ _ _ _ => exact hfit
  | userConnected _ _ _ _ | userDisconnected _ _ _ _
  | userDealWon _ _ _ _ => trivial
  | fakeUser hmessage _ =>
      unfold Strategy.fakeMessage at hmessage
      split at hmessage <;> cases hmessage
      all_goals first | trivial | exact (by decide : 7 ≤ 255)

theorem Strategy.Effect.of_message {a : StrategyStep dm}
    {message : ClientMessage dm} (h : s.Effect a s' (some message)) :
    s'.prevMinData.rating = s.prevMinData.rating ∧
      s'.prevMinData.report = s.prevMinData.report ∧
      s'.published = s.published := by
  cases h with
  | userRegistered _ _ _ _ hprev => exact ⟨hprev.rating, hprev.report, rfl⟩
  | userRenamed _ _ _ _ _ hprev => exact ⟨hprev.rating, hprev.report, rfl⟩
  | userConnected _ _ _ hprev | userDisconnected _ _ _ hprev =>
      exact ⟨hprev.rating, hprev.report, rfl⟩
  | userDealWon _ _ _ _ | fakeUser _ _ => exact ⟨rfl, rfl, rfl⟩

theorem Strategy.Effect.room {a : StrategyStep dm}
    {message : ClientMessage dm} (h : s.Effect a s' (some message))
    (hrange : s.InRange a) (hroom : s.newUserId.toInt + 11 < 2 ^ 31) :
    s'.newUserId.toInt + 11 < 2 ^ 31 := by
  cases h with
  | userRegistered _ _ hcounter _ _ =>
      have hlt : s.newUserId.toInt + 12 < 2 ^ 31 := hrange
      dsimp only
      omega
  | _ => exact hroom

/-- **A message** of the client. -/
theorem InTune.message (h : InTune s st renames) {a : StrategyStep dm}
    {message : ClientMessage dm} (heffect : s.Effect a s' (some message))
    (hs' : s'.InStep) (hrange : s.InRange a)
    (hfew : ∀ msg, message = .renamed msg → 0 ≤ msg.userId.toInt →
      renames.count msg.userId < 3) (second : Fin 60) :
    ∃ st', st.step (.message second message) = .ok st' ∧
      st'.userData = st.userData ∧
      InTune s' st' (renamesAfter renames message) := by
  refine ⟨_, ServiceState.step_message st second message, rfl, hs', h.settled,
    ?_, fun i hi => ?_, ?_, ?_, ?_, heffect.room hrange h.room⟩
  · dsimp only
    rw [IncomingDataDoubleBuffer.currentBuffer_setBuffer]
    exact h.fits.record second heffect.nameFits
  · exact (Function.update_of_ne hi ..).trans (h.spare i hi)
  · dsimp only
    rw [IncomingDataDoubleBuffer.currentBuffer_setBuffer]
    exact h.batch.record h.inStep heffect hrange hfew
  · exact all_dispatch h.queues h.inStep hs' h.batch second heffect
  · exact h.rating.trans heffect.of_message.1.symm

theorem InTune.quiet (h : InTune s st renames) (second : Option ℕ) :
    InTune { s with currentSecond := second } st renames where
  inStep := by
    obtain ⟨hcur, hprev, hranked, hcounter, hknown, hsame, hwon, hcount⟩ :=
      h.inStep
    exact ⟨hcur, hprev, hranked, hcounter, hknown, hsame, hwon, hcount⟩
  settled := h.settled
  fits := h.fits
  spare := h.spare
  batch := by
    obtain ⟨husers, hstrangers, hrenamed, hmentioned, hpositive, hunused,
      hcounted⟩ := h.batch
    exact ⟨husers, hstrangers, hrenamed, hmentioned, hpositive, hunused,
      hcounted⟩
  queues := h.queues.imp fun job hjob =>
    hjob.mono (fun _ => id) (fun _ => id) fun _ => id
  rating := h.rating
  room := h.room

/-- **The next minute** of both. -/
theorem InTune.nextMinute (h : InTune s st renames) (hs' : s'.InStep)
    (hcur : s'.curMinData = s.curMinData)
    (hprev : s'.prevMinData = s.prevMinData.setNextMinuteData s.curMinData)
    (hcount : s'.count = s.count) (hid : s'.newUserId = s.newUserId)
    (hapart : s.curMinData.Apart) :
    ∃ st', st.step (.recalculate false) = .ok st' ∧ InTune s' st' [] := by
  have hroom := h.room
  have hdisj := h.settled.consistent.disjoint
  obtain ⟨c, hc, hranked⟩ := h.batch.recalculate_completes (q := st.jobQueue)
    h.inStep h.settled h.fits (by omega)
  have hclear : c.incomingBuffer = {} :=
    recalculate_incomingBuffer (s := create _ _ _ _) hdisj h.fits.seconds hc
  have hbatch := h.batch.recalculate h.inStep h.settled h.fits hc hranked hcur
    hprev hcount
  have hempty : ∀ i, ((st.incomingData.setBuffer
      st.incomingData.currentBufferIndex c.incomingBuffer).switch).buffers i =
        {} := by
    rw [hclear]
    exact IncomingDataDoubleBuffer.buffers_cleared h.spare
  refine ⟨_, by rw [ServiceState.step, ServiceState.calculator, hc, ok_bind],
    hs', h.settled.recalculate h.fits hc, ?_, fun i _ => hempty i, ?_, ?_, ?_,
    hid ▸ hroom⟩
  · rw [IncomingDataDoubleBuffer.currentBuffer, hempty]
    exact IncomingDataBuffer.fits_empty
  · rw [IncomingDataDoubleBuffer.currentBuffer, hempty]
    exact hbatch
  · dsimp only
    rw [jobQueue_eq (s := create _ _ _ _) hdisj h.fits.seconds hc]
    refine JobQueue.All.foldl_enqueueErrorJob (h.queues.imp fun job hjob =>
      hjob.mono (fun id => ?_) (fun id hregistered => ?_) fun p hlive => ?_)
      (reportedErrors_fake h.batch h.inStep)
    · rw [hcur]
      exact fun hsome => hsome
    · rw [hranked.registered, isRegistered_batchState, Bool.or_eq_true]
      exact .inl hregistered
    · exact live_recalculate (s := create _ _ _ _) hdisj h.fits.seconds hlive hc
  · exact (h.batch.rating_recalculate h.inStep hranked hapart).trans
      (congrArg UserDataStorage.rating hprev.symm)

/-! ## §5  Responses -/

theorem map_eq_map_filterMap {α β : Type} {f : α → Option β} {l : List α}
    (h : ∀ a ∈ l, (f a).isSome) : l.map f = (l.filterMap f).map some := by
  induction l with
  | nil => rfl
  | cons a l ih =>
      obtain ⟨ha, hl⟩ := List.forall_mem_cons.mp h
      obtain ⟨b, hb⟩ := Option.isSome_iff_exists.mp ha
      rw [List.map_cons, List.filterMap_cons_some hb, List.map_cons, hb, ih hl]

theorem CoreRatingData.RatingIntegrity.standing {d : CoreRatingData dm}
    (h : d.RatingIntegrity) {i : ℕ} {u : FullUserData dm}
    (hu : d.standings[i]? = some u) :
    ∃ p, d.rating[i]? = some p ∧ d.activeUsers.lookup p.owner = some u := by
  have hmap : d.rating.map d.deref = d.standings.map some := by
    refine map_eq_map_filterMap fun p hp => ?_
    obtain ⟨v, hv, hserial⟩ := (h.listed p).mp hp
    rw [deref_eq_some.mpr ⟨hv, hserial⟩]
    rfl
  have hat : (d.rating.map d.deref)[i]? = some (some u) := by
    rw [hmap, List.getElem?_map, hu]
    rfl
  rw [List.getElem?_map, Option.map_eq_some_iff] at hat
  obtain ⟨p, hp, hderef⟩ := hat
  exact ⟨p, hp, (deref_eq_some.mp hderef).1⟩

/-- **The client expects what stands in the rating.** -/
theorem InTune.expects (h : InTune s st renames) {i : ℕ} {u : FullUserData dm}
    (hu : st.userData.standings[i]? = some u) :
    s.prevMinData.Expects u.entry i := by
  obtain ⟨p, hp, hlookup⟩ := h.settled.integrity.standing hu
  have hid : u.id = p.owner := h.settled.consistent.keyed _ u hlookup
  have hstate := CoreRatingData.userState_active hlookup
  have hplace : s.prevMinData.rating[i]? = some p.owner := by
    rw [← h.rating, List.getElem?_map, hp]
    rfl
  -- the client's user
  have hknown : 0 ≤ p.owner.toInt ∧ p.owner.toInt < s.newUserId.toInt :=
    h.batch.known_of_registered h.inStep (.inl (by rw [hstate]; rfl))
  obtain ⟨w, hw⟩ :=
    Option.isSome_iff_exists.mp ((h.inStep.known p.owner).mpr hknown)
  obtain ⟨v, hv, hsame⟩ := h.inStep.sameUser_of_cur hw
  have huser := h.batch.users _ w v hw hv
  have hnames : v.names = w.names := by
    rw [FullUserDataEx.names, FullUserDataEx.names, hsame.name, hsame.nameList]
  refine ⟨v, by rw [← hv, ← hid]; rfl, ?_, ?_, ?_⟩
  · have hrank := h.inStep.ranked.place i p.owner hplace
    rwa [UserDataStorage.user_of_index hv] at hrank
  · have hwon := huser.won
    rw [CoreRatingData.rated, hlookup, Option.map_some, Option.map_some] at hwon
    split at hwon
    · cases hwon
    · exact (Option.some_inj.mp hwon).symm
  · rcases huser.present with ⟨-, basic, age, hbasic, -, hname⟩ |
      ⟨hbasic, -⟩
    · rw [hstate] at hbasic
      cases hbasic
      rw [← hnames] at hname
      exact FullUserDataEx.eq_or_mem_of_names hname
    · rw [hstate] at hbasic
      cases hbasic

theorem mem_placed {entries : List (RatingEntry dm)} {place : ℤ}
    {e : RatingEntry dm × ℤ} (h : e ∈ UserDataStorage.placed entries place) :
    ∃ i : ℕ, entries[i]? = some e.1 ∧ e.2 = place + i := by
  obtain ⟨⟨entry, i⟩, hmem, rfl⟩ := List.mem_map.mp h
  exact ⟨i, List.mem_zipIdx_iff_getElem?.mp hmem, rfl⟩

theorem getElem?_window_top (rating : List (FullUserData dm)) (r : ℕ) {i : ℕ}
    (hi : i < 10) : (window rating r)[i]? = rating[i]? := by
  rw [window_eq, topOf, List.getElem?_append, List.length_take]
  split
  · rw [List.getElem?_take, if_pos hi]
  · rw [neighbourhood, List.getElem?_eq_none (l := rating) (by omega)]
    refine List.getElem?_eq_none ?_
    rw [List.length_drop, List.length_take]
    omega

theorem getElem?_window_rest (rating : List (FullUserData dm)) (r i : ℕ) :
    (window rating r)[10 + i]? =
      (rating.take (r + 11))[max 10 (r - 10) + i]? := by
  rw [window_eq, topOf, List.getElem?_append_right (by simp),
    neighbourhood, List.getElem?_drop]
  by_cases hlong : 10 ≤ rating.length
  · rw [List.length_take, Nat.min_eq_left hlong, Nat.add_sub_cancel_left]
  · rw [List.getElem?_eq_none, List.getElem?_eq_none] <;>
      rw [List.length_take] <;> omega

/-- **The client accepts a pack** for the place it has the user at. -/
theorem InTune.accepts (h : InTune s st renames) {id : IdT} {r : ℕ}
    {v : FullUserDataEx dm} (hv : s.prevMinData.index[id]? = some v)
    (hr : r ≤ st.userData.rating.length)
    (hplace : if v.rating = invalidRating then r = st.userData.rating.length
      else v.rating = r) :
    s.prevMinData.Accepts ⟨id, Int32.ofInt st.userData.standings.length,
      Int32.ofInt r, (window st.userData.standings r).map FullUserData.entry⟩
      v := by
  have hlength := h.settled.servable.ratedUsers.2
  have hsize := h.settled.size
  have hknown : 0 ≤ id.toInt ∧ id.toInt < s.newUserId.toInt := by
    rw [← h.inStep.known]
    have hsame := h.inStep.same id
    rw [hv] at hsame
    cases hu : s.curMinData.index[id]? with
    | some u => rfl
    | none =>
        rw [hu] at hsame
        cases hsame
  have hpos : (Int32.ofInt r).toInt = r := toInt_ofInt (by omega)
  have hlen : (Int32.ofInt st.userData.standings.length).toInt =
      st.userData.standings.length := toInt_ofInt (by omega)
  refine ⟨hknown.1, ?_, hv, ?_, ?_, fun e he => ?_, fun e he => ?_⟩
  · rw [h.inStep.size_prevMinData]
    exact hknown.2
  · dsimp only
    rw [hlen, hlength, ← h.rating, List.length_map]
  · dsimp only
    split at hplace
    · next hunplaced => rw [if_pos hunplaced, hplace, hlength]
    · next hplaced => rw [if_neg hplaced, hplace, hpos]
  · obtain ⟨i, hi, hat⟩ := mem_placed he
    rw [List.getElem?_take, List.getElem?_map] at hi
    split at hi
    · next hlt =>
      rw [getElem?_window_top _ _ hlt] at hi
      obtain ⟨u, hu, heq⟩ := Option.map_eq_some_iff.mp hi
      rw [hat, ← heq, zero_add]
      exact h.expects hu
    · cases hi
  · obtain ⟨i, hi, hat⟩ := mem_placed he
    rw [List.getElem?_drop, List.getElem?_map,
      show topPositions.toNat = 10 from rfl, getElem?_window_rest] at hi
    obtain ⟨u, hu, heq⟩ := Option.map_eq_some_iff.mp hi
    rw [List.getElem?_take] at hu
    obtain ⟨-, hu⟩ := Option.ite_none_right_eq_some.mp hu
    have hexpects := h.expects hu
    rw [hat, ← heq, hpos]
    have hstart : max topPositions ((r : ℤ) - competitionDistance) + i =
        ((max 10 (r - 10) + i : ℕ) : ℤ) := by
      rw [topPositions, competitionDistance]
      omega
    rw [hstart]
    exact hexpects

theorem InTune.received (h : InTune s st renames) {prev : UserDataStorage dm}
    (hprev : s.prevMinData.Received prev) :
    InTune { s with prevMinData := prev } st renames := by
  refine ⟨h.inStep.received hprev, h.settled, h.fits, h.spare,
    ⟨fun id u v' hu hv' => ?_, h.batch.strangers, h.batch.renamed,
      h.batch.mentioned, h.batch.positive, h.batch.unused, h.batch.counted⟩,
    h.queues.imp fun job hjob => hjob.mono (fun _ => id) (fun _ => id)
      fun _ => id, h.rating.trans hprev.rating.symm, h.room⟩
  obtain ⟨v, received, hv, rfl⟩ := hprev.back hv'
  exact (h.batch.users id u v hu hv).congr ⟨rfl, rfl, rfl⟩ rfl rfl rfl

/-- A pack for the place the client has the user at is found valid. -/
theorem InTune.validate_pack (h : InTune s st renames) {id : IdT} {r : ℕ}
    {v : FullUserDataEx dm} (hv : s.prevMinData.index[id]? = some v)
    (hr : r ≤ st.userData.rating.length)
    (hplace : if v.rating = invalidRating then r = st.userData.rating.length
      else v.rating = r) :
    ∃ prev, s.prevMinData.validate (st.userData.pack id r) = .ok prev ∧
      prev.report = s.prevMinData.report.ratingValid ∧
      InTune { s with prevMinData := prev } st renames := by
  have hset := UserDataStorage.received_setUser hv true
  exact ⟨_, congrArg Except.ok (h.accepts hv hr hplace).validateRating, rfl,
    h.received ⟨hset.users, hset.rating, hset.index⟩⟩

theorem InTune.validate_error (h : InTune s st renames) {id : IdT}
    (hfake : id.toInt < 0) :
    ∃ prev, s.prevMinData.validate (.error (.userUnrecognized id)) = .ok prev ∧
      prev.report = s.prevMinData.report.errorValid ∧
      InTune { s with prevMinData := prev } st renames := by
  exact ⟨_, s.prevMinData.validateError_fake hfake, rfl,
    h.received (UserDataStorage.received_of_index rfl rfl rfl)⟩

theorem InTune.room_rating (h : InTune s st renames) :
    st.userData.rating.length + 11 < 2 ^ 31 := by
  have hroom := h.room
  have hnodup := h.settled.integrity.nodup_owners
  have hcard : (((st.userData.rating.map UserRef.owner).toFinset.card : ℕ) : ℤ) ≤
      s.newUserId.toInt := by
    refine card_le_of_below h.inStep.counter fun id hid => ?_
    rw [List.mem_toFinset, h.settled.integrity.mem_owners] at hid
    refine h.batch.known_of_registered h.inStep (.inl ?_)
    rw [← UserState.isRegistered_eq_isSome, UserState.isRegistered_eq, hid,
      Bool.true_or]
  rw [List.toFinset_card_of_nodup hnodup, List.length_map] at hcard
  omega

/-- Who stands in the service's rating stands there for the client. -/
theorem InTune.stands (h : InTune s st renames) {id : IdT} {r : ℕ}
    (hstands : st.userData.StandsAt id r) :
    r ≤ st.userData.rating.length ∧
      ∃ v, s.prevMinData.index[id]? = some v ∧ v.rating = r := by
  obtain ⟨p, hp, rfl⟩ := hstands
  have hplace : s.prevMinData.rating[r]? = some p.owner := by
    rw [← h.rating, List.getElem?_map, hp]
    rfl
  refine ⟨(List.getElem?_eq_some_iff.mp hp).1.le, ?_⟩
  have hrank := h.inStep.ranked.place r p.owner hplace
  have hwon := (h.inStep.ranked.mem p.owner).mp (List.mem_of_getElem? hplace)
  cases hv : s.prevMinData.index[p.owner]? with
  | none =>
      rw [UserDataStorage.user, Std.TreeMap.getD_eq_getD_getElem?, hv] at hwon
      exact absurd rfl hwon
  | some v =>
      rw [UserDataStorage.user_of_index hv] at hrank
      exact ⟨v, rfl, hrank⟩

/-- **Every response is found valid.** -/
theorem InTune.validate (h : InTune s st renames) {job : WorkerJob}
    {response : Response dm} (hjob : JobInTune s st.userData job)
    (hbrings : job.Brings st.userData response) :
    ∃ prev, s.prevMinData.validate response = .ok prev ∧
      (prev.report = s.prevMinData.report.ratingValid ∨
        prev.report = s.prevMinData.report.errorValid) ∧
      InTune { s with prevMinData := prev } st renames := by
  have hstanding : ∀ {id : IdT} {r : ℕ}, st.userData.StandsAt id r →
      ∃ prev, s.prevMinData.validate (st.userData.pack id r) = .ok prev ∧
        prev.report = s.prevMinData.report.ratingValid ∧
        InTune { s with prevMinData := prev } st renames := by
    intro id r hstands
    obtain ⟨hr, v, hv, hrank⟩ := h.stands hstands
    refine h.validate_pack hv hr ?_
    rw [hrank, if_neg (by rw [invalidRating]; omega)]
  cases job with
  | error e =>
      obtain ⟨id, rfl, hfake⟩ := hjob
      cases hbrings
      obtain ⟨prev, hok, hreport, htune⟩ := h.validate_error hfake
      exact ⟨prev, hok, .inr hreport, htune⟩
  | userData p =>
      obtain ⟨r, hr, rfl⟩ := hbrings
      obtain ⟨prev, hok, hreport, htune⟩ := hstanding ⟨p, hr, rfl⟩
      exact ⟨prev, hok, .inl hreport, htune⟩
  | userIdPromise promise =>
      rcases hbrings with ⟨r, hstands, rfl⟩ | ⟨hinactive, rfl⟩
      · obtain ⟨prev, hok, hreport, htune⟩ := hstanding hstands
        exact ⟨prev, hok, .inl hreport, htune⟩
      · rcases hjob with ⟨hfake, hflag⟩ | ⟨hsome, hknown⟩
        · -- nobody has heard of him
          have hnone : s.curMinData.index[promise.1]? = none :=
            Option.not_isSome_iff_eq_none.mp fun hsome =>
              absurd ((h.inStep.known _).mp hsome).1 (not_le.mpr hfake)
          rw [if_neg]
          · obtain ⟨prev, hok, hreport, htune⟩ := h.validate_error hfake
            exact ⟨prev, hok, .inr hreport, htune⟩
          · rw [UserState.isRegistered_eq_isSome,
              (h.batch.strangers _ hnone).1, hflag]
            simp
        · -- a user without winnings in the last rating
          obtain ⟨u, hu⟩ := Option.isSome_iff_exists.mp hsome
          obtain ⟨v, hv, -⟩ := h.inStep.sameUser_of_cur hu
          have hwon : v.winnings = 0 := not_not.mp fun hne => hinactive
            ((BatchInTune.isActive_iff (h.batch.users _ u v hu hv)).mpr hne)
          have hrank := h.inStep.ranked.unplaced promise.1
          rw [UserDataStorage.user_of_index hv] at hrank
          rw [if_pos (Or.symm hknown)]
          obtain ⟨prev, hok, hreport, htune⟩ :=
            h.validate_pack hv le_rfl (by rw [if_pos (hrank hwon)])
          exact ⟨prev, hok, .inl hreport, htune⟩

end Steps

end RatingService
