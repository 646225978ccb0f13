import RatingService.Service.PromiseQueue
import RatingService.Service.RatingPack

/-!
# A worker's jobs

What `WorkerPool::doWork` takes out of its three queues, and the frames it
makes of it. Both of a worker's buffers are kept between the jobs, and rating
packs and errors go out of them in any order.

- §1: the queues.
- §2: the buffers.
- §3: the frame a job asks for.
- §4: tables a worker can serve from.
- §5: a job.
-/

namespace RatingService

open PodCodec ProtocolConstants RatingBufferData

variable {dm : DataModel} {n : ℕ}

/-! ## §1  The queues -/

namespace JobQueue

/-- `dequeueError`; no error is `nullptr`. -/
def dequeueError (q : JobQueue n) (w : Fin n) :
    Option GenericProtocolError × JobQueue n :=
  match (q.queues w).errorQueue with
  | [] => (none, q)
  | errorJob :: rest =>
      (some errorJob, { q with
        queues := Function.update q.queues w
          { q.queues w with errorQueue := rest } })

/-- `dequeueUserData`; no pointer is `nullptr`. -/
def dequeueUserData (q : JobQueue n) (w : Fin n) :
    Option UserRef × JobQueue n :=
  match (q.queues w).userDataQueue with
  | [] => (none, q)
  | userData :: rest =>
      (some userData, { q with
        queues := Function.update q.queues w
          { q.queues w with userDataQueue := rest } })

variable {q q' : JobQueue n} {w : Fin n}

theorem dequeueError_some {e : GenericProtocolError}
    (h : q.dequeueError w = (some e, q')) :
    ∃ rest, (q.queues w).errorQueue = e :: rest ∧ q' = { q with
      queues := Function.update q.queues w
        { q.queues w with errorQueue := rest } } := by
  unfold dequeueError at h
  split at h
  · cases h
  · next rest hqueue =>
    cases h
    exact ⟨rest, hqueue, rfl⟩

theorem dequeueUserData_none (h : q.dequeueUserData w = (none, q')) :
    (q.queues w).userDataQueue = [] := by
  unfold dequeueUserData at h
  split at h
  · assumption
  · cases h

theorem dequeueUserData_some {p : UserRef}
    (h : q.dequeueUserData w = (some p, q')) :
    ∃ rest, (q.queues w).userDataQueue = p :: rest ∧ q' = { q with
      queues := Function.update q.queues w
        { q.queues w with userDataQueue := rest } } := by
  unfold dequeueUserData at h
  split at h
  · cases h
  · next rest hqueue =>
    cases h
    exact ⟨rest, hqueue, rfl⟩

end JobQueue

/-! ## §2  The buffers -/

/-- The locals of `doWork` before its loop. -/
structure WorkerBuffers where
  ratingBuffer : RatingBufferData := .create createAdaptedRatingBuffer
  errorBuffer : BinaryOStream := createAdaptedErrorBuffer
  errorBufferBase : ℕ := createAdaptedErrorBuffer.getPos

/-- `processError`, with the frame it sends. -/
def processError (buffer : BinaryOStream) (pos : ℕ)
    (error : GenericProtocolError) : BufferT × BinaryOStream :=
  let buffer := writeMessage (error.store buffer)
  (buffer.storage, (buffer.rewind pos).2)

def CoreRatingData.ratedUsers (d : CoreRatingData dm) :
    Outcome (List (FullUserData dm)) :=
  d.rating.mapM d.load

inductive WorkerJob where
  | error (error : GenericProtocolError)
  | userIdPromise (userIdPromise : UserIdPromise)
  | userData (userData : UserRef)

namespace WorkerBuffers

/-- `cacheTopRatings`. -/
def cache (d : CoreRatingData dm) (b : WorkerBuffers) :
    Outcome WorkerBuffers := do
  let rating ← d.ratedUsers
  let ratingBuffer ← cacheTopRatings rating b.ratingBuffer
  .ok { b with ratingBuffer }

def sendRating (d : CoreRatingData dm) (b : WorkerBuffers) (id : IdT)
    (rating : ℤ) : Outcome (BufferT × WorkerBuffers) := do
  let coreRating ← d.ratedUsers
  let (frame, ratingBuffer) ←
    processRatingImpl coreRating b.ratingBuffer id rating
  .ok (frame, { b with ratingBuffer })

def sendError (b : WorkerBuffers) (error : GenericProtocolError) :
    BufferT × WorkerBuffers :=
  let (frame, errorBuffer) :=
    processError b.errorBuffer b.errorBufferBase error
  (frame, { b with errorBuffer })

def process (d : CoreRatingData dm) (b : WorkerBuffers) :
    WorkerJob → Outcome (BufferT × WorkerBuffers)
  | .error error => .ok (b.sendError error)
  | .userIdPromise promise =>
      match d.processRating promise with
      | some (id, rating) => b.sendRating d id rating
      | none => .ok (b.sendError (.userUnrecognized promise.1))
  | .userData userData => do
      let user ← d.load userData
      b.sendRating d user.id user.rating

end WorkerBuffers

/-! ## §3  Frames -/

def GenericProtocolError.bytes (error : GenericProtocolError) : BufferT :=
  Pod.encode error.getErrorCode.code ++
    match error with
    | .userUnrecognized userId => Pod.encode userId
    | .multipleRegistration userId => Pod.encode userId
    | .unsupportedProtocolVersion _ => Pod.encode version

theorem GenericProtocolError.store_eq (error : GenericProtocolError)
    {buffer : BinaryOStream} (hv : buffer.Valid) :
    error.store buffer = buffer.copyIn error.bytes := by
  have hv' := BinaryOStream.copyIn_valid hv
    (Pod.encode error.getErrorCode.code)
  cases error
  all_goals
    rw [store, bytes, ← BinaryOStream.copyIn_copyIn hv,
      BinaryOStream.writePod_eq hv]
    exact BinaryOStream.writePod_eq hv' _

/-- A pack for a place. At the end of the `int` range the neighbourhood is
missing. -/
def ratingFrame (rating : List (FullUserData dm)) (id : IdT) (r : ℕ) :
    BufferT :=
  packFrame rating id r
    (if r + 11 < 2 ^ 31 then neighbourhood rating r else [])

def errorFrame (error : GenericProtocolError) : BufferT :=
  (writeMessage (error.store createAdaptedErrorBuffer)).storage

/-- The rating as the list of its users. -/
def CoreRatingData.standings (d : CoreRatingData dm) :
    List (FullUserData dm) :=
  d.rating.filterMap d.deref

/-- The user stands at place `r`. -/
def CoreRatingData.StandsAt (d : CoreRatingData dm) (id : IdT) (r : ℕ) :
    Prop :=
  ∃ p, d.rating[r]? = some p ∧ p.owner = id

/-- **The frame a job asks for**: an active user's pack is for the place he
has, another user's for the place behind the last. -/
def WorkerJob.AnsweredBy (d : CoreRatingData dm) : WorkerJob → BufferT → Prop
  | .error e, frame => frame = errorFrame e
  | .userIdPromise promise, frame =>
      (∃ r, d.StandsAt promise.1 r ∧
        frame = ratingFrame d.standings promise.1 r) ∨
      ¬ (d.userState promise.1).isActive ∧
        frame = if (d.userState promise.1).isRegistered ∨ promise.2 = true then
          ratingFrame d.standings promise.1 d.rating.length
        else errorFrame (.userUnrecognized promise.1)
  | .userData p, frame =>
      ∃ r, d.rating[r]? = some p ∧ frame = ratingFrame d.standings p.owner r

/-- What a job relies on: a pointer leads to an object. -/
def WorkerJob.Safe (d : CoreRatingData dm) : WorkerJob → Prop
  | .error _ => True
  | .userIdPromise _ => True
  | .userData p => d.Live p

/-! ## §4  Tables to serve from -/

namespace CoreRatingData

variable {d : CoreRatingData dm} {id : IdT} {p : UserRef}

def NamesFit (d : CoreRatingData dm) : Prop :=
  ∀ id u, (d.userState id).basic = some u → u.name.length ≤ 255

/-- **What a worker relies on.** -/
structure Servable (d : CoreRatingData dm) : Prop where
  integrity : d.RatingIntegrity
  keyed : ∀ id u, d.activeUsers.lookup id = some u → u.id = id
  names : d.NamesFit
  size : d.rating.length < 2 ^ 31

theorem mapM_load_deref {l : List UserRef} (hl : ∀ p ∈ l, d.Live p) :
    l.mapM d.load = .ok (l.filterMap d.deref) ∧
      (l.filterMap d.deref).length = l.length := by
  induction l with
  | nil => exact ⟨rfl, rfl⟩
  | cons p l ih =>
      obtain ⟨⟨u, hu, hserial⟩, hrest⟩ := List.forall_mem_cons.mp hl
      obtain ⟨hload, hlength⟩ := ih hrest
      have hderef : d.deref p = some u := deref_eq_some.mpr ⟨hu, hserial⟩
      rw [List.mapM_cons, load_of_lookup hu hserial, ok_bind, hload, ok_bind,
        List.filterMap_cons_some hderef]
      exact ⟨rfl, congrArg Nat.succ hlength⟩

theorem Servable.ratedUsers (h : d.Servable) :
    d.ratedUsers = .ok d.standings ∧
      d.standings.length = d.rating.length :=
  mapM_load_deref fun p => (h.integrity.listed p).mp

theorem Servable.standings_names (h : d.Servable) :
    ∀ u ∈ d.standings, u.name.length ≤ 255 := by
  intro u hu
  obtain ⟨p, -, hp⟩ := List.mem_filterMap.mp hu
  refine h.names p.owner u.toBasicUserData ?_
  rw [userState_active (deref_eq_some.mp hp).1]
  rfl

theorem Servable.standings_size (h : d.Servable) :
    d.standings.length < 2 ^ 31 := by
  rw [h.ratedUsers.2]
  exact h.size

/-- The record of an active user says where he stands. -/
theorem Servable.stands (h : d.Servable) {u : FullUserData dm}
    (hu : d.activeUsers.lookup id = some u) :
    ∃ r : ℕ, u.rating = r ∧ d.rating[r]? = some ⟨id, u.serial⟩ := by
  have hrated : d.rated id = some u.rated := by
    rw [rated, hu]
    rfl
  obtain ⟨hnonneg, hplace⟩ := h.integrity.stands hrated
  exact ⟨u.rating.toNat, (Int.toNat_of_nonneg hnonneg).symm, hplace⟩

end CoreRatingData

/-! ## §5  A job -/

namespace WorkerBuffers

structure ErrorReady (b : WorkerBuffers) : Prop where
  base : b.errorBufferBase = 3
  start : ∃ size : BufferT, size.length = 2 ∧
    b.errorBuffer = ⟨3, size ++ [ServiceMessageCode.protocolError.code]⟩

/-- The buffers are ready for the next job on these tables. -/
structure Ready (d : CoreRatingData dm) (b : WorkerBuffers) : Prop where
  error : b.ErrorReady
  rating : Cached d.standings b.ratingBuffer

variable {d : CoreRatingData dm} {b : WorkerBuffers}

theorem errorReady_create : ({} : WorkerBuffers).ErrorReady :=
  ⟨rfl, [0, 0], rfl, rfl⟩

theorem sendError_ready (hb : b.ErrorReady) (error : GenericProtocolError) :
    ∃ b', b.sendError error = (errorFrame error, b') ∧ b'.ErrorReady ∧
      b'.ratingBuffer = b.ratingBuffer := by
  obtain ⟨hbase, size, hsize, hbuffer⟩ := hb
  have hthree : (size ++ [ServiceMessageCode.protocolError.code]).length = 3 := by
    rw [List.length_append, hsize]
    rfl
  have hstore : ∀ head : BufferT, head.length = 2 →
      (writeMessage (error.store
        ⟨3, head ++ [ServiceMessageCode.protocolError.code]⟩)).storage =
        sizePrefix (3 + error.bytes.length) ++
          ServiceMessageCode.protocolError.code :: error.bytes := by
    intro head hhead
    have hlen : (head ++ [ServiceMessageCode.protocolError.code]).length = 3 := by
      rw [List.length_append, hhead]
      rfl
    have hv : (⟨3, head ++ [ServiceMessageCode.protocolError.code]⟩ :
        BinaryOStream).Valid := hlen.ge
    rw [error.store_eq hv, BinaryOStream.copyIn_end hlen.symm,
      writeMessage_storage]
    dsimp only
    rw [List.length_append, hlen, List.append_assoc, List.drop_left' hhead]
    rfl
  have hframe : errorFrame error = sizePrefix (3 + error.bytes.length) ++
      ServiceMessageCode.protocolError.code :: error.bytes :=
    hstore [0, 0] rfl
  have hsent := hstore size hsize
  refine ⟨{ b with errorBuffer := ⟨3, sizePrefix (3 + error.bytes.length) ++
    [ServiceMessageCode.protocolError.code]⟩ }, ?_,
    ⟨hbase, _, length_sizePrefix _, rfl⟩, rfl⟩
  have hcut : ((writeMessage (error.store
      ⟨3, size ++ [ServiceMessageCode.protocolError.code]⟩)).rewind 3).2 =
        ⟨3, sizePrefix (3 + error.bytes.length) ++
          [ServiceMessageCode.protocolError.code]⟩ := by
    have hle : 3 ≤ (sizePrefix (3 + error.bytes.length) ++
        ServiceMessageCode.protocolError.code :: error.bytes).length := by
      rw [List.length_append, length_sizePrefix, List.length_cons]
      omega
    rw [BinaryOStream.rewind, hsent, if_neg (Nat.not_lt.mpr hle),
      resize_of_le hle, List.append_cons, List.take_left']
    rw [List.length_append, length_sizePrefix]
    rfl
  rw [sendError, processError, hbase, hbuffer]
  simp only [hsent, hcut, hframe]

theorem sendRating_ready (hd : d.Servable) (hb : b.Ready d) (id : IdT) {r : ℕ}
    (hr : r ≤ d.rating.length) :
    ∃ b', b.sendRating d id r = .ok (ratingFrame d.standings id r, b') ∧
      b'.Ready d := by
  obtain ⟨husers, hlength⟩ := hd.ratedUsers
  have hr' : r ≤ d.standings.length := hlength ▸ hr
  obtain ⟨ratingBuffer, hframe, hcached⟩ : ∃ ratingBuffer,
      processRatingImpl d.standings b.ratingBuffer id r =
        .ok (ratingFrame d.standings id r, ratingBuffer) ∧
      Cached d.standings ratingBuffer := by
    rw [ratingFrame]
    split
    · next hroom =>
      exact processRatingImpl_cached hb.rating hd.standings_names
        hd.standings_size id hr' hroom
    · next hroom =>
      exact processRatingImpl_overflow hb.rating hd.standings_size id hr'
        (not_lt.mp hroom)
  refine ⟨{ b with ratingBuffer }, ?_, ⟨hb.error.base, hb.error.start⟩, hcached⟩
  rw [sendRating, husers, ok_bind, hframe]
  rfl

/-- **Caching** makes the buffers ready, whatever the rating buffer held
behind its message code. -/
theorem cache_ready (hd : d.Servable) (herror : b.ErrorReady)
    (hrating : b.ratingBuffer.Adapted) :
    ∃ b', b.cache d = .ok b' ∧ b'.Ready d := by
  obtain ⟨ratingBuffer, hcache, hcached⟩ :=
    cacheTopRatings_cached hrating hd.standings_names hd.standings_size
  refine ⟨{ b with ratingBuffer }, ?_, ⟨herror.base, herror.start⟩, hcached⟩
  rw [cache, hd.ratedUsers.1, ok_bind, hcache]
  rfl

theorem Ready.sendError (hb : b.Ready d) (error : GenericProtocolError) :
    ∃ b', b.sendError error = (errorFrame error, b') ∧ b'.Ready d := by
  obtain ⟨b', hsent, herror, hrating⟩ := sendError_ready hb.error error
  exact ⟨b', hsent, herror, hrating ▸ hb.rating⟩

/-- **A job** on buffers that are ready: it gets the frame it asks for, and
leaves the buffers ready for the next one. -/
theorem process_ready (hd : d.Servable) (hb : b.Ready d) {job : WorkerJob}
    (hjob : job.Safe d) :
    ∃ frame b', b.process d job = .ok (frame, b') ∧
      job.AnsweredBy d frame ∧ b'.Ready d := by
  cases job with
  | error e =>
      obtain ⟨b', hsent, hb'⟩ := hb.sendError e
      exact ⟨_, b', congrArg Except.ok hsent, rfl, hb'⟩
  | userIdPromise promise =>
      rw [process]
      cases hplace : d.processRating promise with
      | none =>
          obtain ⟨hunknown, hflag⟩ :=
            CoreRatingData.processRating_eq_none.mp hplace
          obtain ⟨b', hsent, hb'⟩ := hb.sendError (.userUnrecognized promise.1)
          refine ⟨_, b', congrArg Except.ok hsent, .inr ⟨?_, ?_⟩, hb'⟩
          · intro hactive
            rw [UserState.isRegistered_eq, hactive, Bool.true_or] at hunknown
            cases hunknown
          · rw [if_neg]
            simp [hunknown, hflag]
      | some place =>
          obtain ⟨id, rating⟩ := place
          rw [CoreRatingData.processRating] at hplace
          cases hactive : d.activeUsers.lookup promise.1 with
          | some u =>
              rw [hactive] at hplace
              cases hplace
              obtain ⟨r, hrating, hr⟩ := hd.stands hactive
              have hle := (List.getElem?_eq_some_iff.mp hr).1.le
              obtain ⟨b', hsent, hb'⟩ := sendRating_ready hd hb u.id hle
              rw [hd.keyed _ u hactive] at hsent
              refine ⟨_, b', ?_, .inl ⟨r, ⟨_, hr, rfl⟩, rfl⟩, hb'⟩
              dsimp only
              rw [hd.keyed _ u hactive, hrating, hsent]
          | none =>
              rw [hactive] at hplace
              obtain ⟨hknown, hplace⟩ :=
                Option.ite_none_right_eq_some.mp hplace
              cases hplace
              obtain ⟨b', hsent, hb'⟩ := sendRating_ready hd hb promise.1 le_rfl
              refine ⟨_, b', ?_, .inr ⟨?_, (if_pos ?_).symm⟩, hb'⟩
              · dsimp only
                rw [toInt_of_lt hd.size, hsent]
              · rw [CoreRatingData.isActive_iff, ← AList.lookup_isSome, hactive]
                simp
              · refine hknown.imp_left fun hsilent => ?_
                obtain ⟨u, hu⟩ := Option.isSome_iff_exists.mp hsilent
                rw [CoreRatingData.userState_silent hactive hu]
                rfl
  | userData p =>
      obtain ⟨u, hu, hserial⟩ := hjob
      obtain ⟨r, hrating, hr⟩ := hd.stands hu
      rw [hserial] at hr
      have hle := (List.getElem?_eq_some_iff.mp hr).1.le
      obtain ⟨b', hsent, hb'⟩ := sendRating_ready hd hb u.id hle
      rw [hd.keyed _ u hu] at hsent
      refine ⟨_, b', ?_, ⟨r, hr, rfl⟩, hb'⟩
      rw [process, CoreRatingData.load_of_lookup hu hserial, ok_bind,
        hd.keyed _ u hu, hrating, hsent]

end WorkerBuffers

end RatingService
