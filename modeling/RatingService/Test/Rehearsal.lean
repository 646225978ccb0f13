import RatingService.Test.InTune
import RatingService.Test.Responses

/-!
# The rehearsal

The service and its test client together, one after the other: a message is
dispatched before anything else happens, a frame is read before the next one
is made, and the client's minute turns with a recalculation. Who does what next
is open, and so are the users and the numbers the client draws, from groups
that are not empty.

The week does not end: a drop empties the service's rating, while the client
keeps what the users have won. The numbers of users, of made-up users, and what
a user wins stay in their ranges. As to the two functions of the client's
storage that lack their `return`, see there.

- §1: the two together.
- §2: what a run may not do.
- §3: one step.
- §4: runs.
-/

namespace RatingService

open Runs

variable {dm : DataModel} {n : ℕ}

/-! ## §1  The two together -/

structure Rehearsal (dm : DataModel) (n : ℕ) where
  client : Strategy dm := {}
  service : ServiceState dm n
  /-- the workers' -/
  buffers : Fin n → Outcome WorkerBuffers
  reader : ResponseReader dm := {}
  /-- a ghost: whom the present batch has renames for -/
  renames : List IdT := []

inductive RehearsalStep (dm : DataModel) (n : ℕ) where
  /-- `second` is the service's -/
  | client (second : Fin 60) (a : StrategyStep dm)
  /-- `announce` for a second; `order` is the order of its loop -/
  | announce (second : Fin 60) (order : List UserRef)
  /-- one turn of one of a worker's loops -/
  | serve (w : Fin n) (kind : QueueKind)

namespace Rehearsal

/-- Before the first message; the workers have cached the empty rating. -/
def start (dm : DataModel) (h : 0 < n) : Rehearsal dm n where
  service := { jobQueue := JobQueue.create h }
  buffers := fun _ => ({} : WorkerBuffers).cache ({} : CoreRatingData dm)

/-- A step of the client's main thread, and what the service does with it. -/
def perform (r : Rehearsal dm n) (second : Fin 60) (a : StrategyStep dm) :
    Outcome (Rehearsal dm n) := do
  let (client, message) ← r.client.perform a
  match message, a with
  | some message, _ => do
      let service ← r.service.step (.message second message)
      .ok { r with client, service, renames := renamesAfter r.renames message }
  | none, .nextMinute _ => do
      let service ← r.service.step (.recalculate false)
      .ok { r with
        client
        service
        buffers := fun w => r.buffers w >>= fun b => b.cache service.userData
        renames := [] }
  | none, _ => .ok { r with client }

def serve (r : Rehearsal dm n) (w : Fin n) (kind : QueueKind) :
    Outcome (Rehearsal dm n) :=
  let (job, jobQueue) := r.service.jobQueue.takeJob w kind
  let service := { r.service with jobQueue }
  match job with
  | none => .ok { r with service }
  | some job => do
      let b ← r.buffers w
      let (frame, b) ← b.process service.userData job
      let (response, reader, _) ← r.reader.turn frame
      let client ← r.client.receive response
      .ok { r with
        client
        service
        buffers := Function.update r.buffers w (.ok b)
        reader }

def step (r : Rehearsal dm n) : RehearsalStep dm n → Outcome (Rehearsal dm n)
  | .client second a => r.perform second a
  | .announce _ order => .ok { r with service := { r.service with
      jobQueue := order.foldl JobQueue.enqueueUserData r.service.jobQueue } }
  | .serve w kind => r.serve w kind

/-! ## §2  What a run may not do -/

/-- **At most three renames of a user in a minute, and no two active users
level at its end.** -/
def Modest (r : Rehearsal dm n) : StrategyStep dm → Prop
  | .userRenamed index _ =>
      Strategy.OfDrawn (fun id => r.renames.count id < 3)
        (r.client.curMinData.getRandomUser UserFlags.anyone index)
  | .nextMinute _ => r.client.curMinData.Apart
  | _ => True

instance (r : Rehearsal dm n) (a : StrategyStep dm) : Decidable (r.Modest a) :=
  match a with
  | .userRenamed _ _ => inferInstanceAs (Decidable (Strategy.OfDrawn _ _))
  | .nextMinute _ => inferInstanceAs (Decidable (UserDataStorage.Apart _))
  | .userRegistered _ | .userConnected _ | .userDisconnected _
  | .userDealWon _ _ | .fakeUser _ | .begin _ | .nextSecond => .isTrue trivial

def Allows (r : Rehearsal dm n) : RehearsalStep dm n → Prop
  | .client _ a => r.client.MayDraw a ∧ r.client.InRange a ∧ r.Modest a
  | .announce second order => AnnouncingSession.Enumerates order
      (r.service.iterationData.usersOnline second)
  | .serve _ _ => True

instance (r : Rehearsal dm n) (a : RehearsalStep dm n) :
    Decidable (r.Allows a) := by
  cases a <;> unfold Allows <;> infer_instance

end Rehearsal

/-! ## §3  One step -/

def ValidationReport.Clean (report : ValidationReport) : Prop :=
  ∃ ratings errors, report =
    { incomingRatings := ratings, incomingErrors := errors
      validRatings := ratings, validErrors := errors }

namespace ValidationReport

theorem clean_empty : ({} : ValidationReport).Clean := ⟨0, 0, rfl⟩

theorem Clean.valid {report report' : ValidationReport} (h : report.Clean)
    (hreport : report' = report.ratingValid ∨ report' = report.errorValid) :
    report'.Clean := by
  obtain ⟨ratings, errors, rfl⟩ := h
  rcases hreport with rfl | rfl
  · exact ⟨ratings + 1, errors, rfl⟩
  · exact ⟨ratings, errors + 1, rfl⟩

end ValidationReport

structure PublishedReport.Clean (p : PublishedReport) : Prop where
  report : p.report.Clean
  invalidRatings : p.invalidRatings = 0
  invalidErrors : p.invalidErrors = 0

theorem ValidationReport.Clean.publish {s : UserDataStorage dm}
    (h : s.report.Clean) : s.publishValidationReport.Clean := by
  obtain ⟨ratings, errors, hreport⟩ := h
  refine ⟨⟨ratings, errors, hreport⟩, ?_, ?_⟩
  · show (s.report.incomingRatings : ℤ) - s.report.validRatings = 0
    rw [hreport]
    exact sub_self _
  · show (s.report.incomingErrors : ℤ) - s.report.validErrors = 0
    rw [hreport]
    exact sub_self _

namespace Rehearsal

/-- **The invariant of the two.** -/
structure Tuned (r : Rehearsal dm n) : Prop where
  inTune : InTune r.client r.service r.renames
  ready : ∀ w, ∃ b, r.buffers w = .ok b ∧ b.Ready r.service.userData
  clean : r.client.prevMinData.report.Clean
  published : ∀ p ∈ r.client.published, p.Clean

variable {r r' : Rehearsal dm n}

theorem tuned_start (dm : DataModel) (h : 0 < n) : (start dm h).Tuned where
  inTune := inTune_init h
  ready := by
    intro w
    have hsettled : Settled ({} : CoreRatingData dm) {} := settled_empty
    obtain ⟨b, hb, hready⟩ := WorkerBuffers.cache_ready hsettled.servable
      WorkerBuffers.errorReady_create RatingBufferData.adapted_create
    exact ⟨b, hb, hready⟩
  clean := ValidationReport.clean_empty
  published := fun p hp => by cases hp

theorem Modest.few {a : StrategyStep dm} {client : Strategy dm}
    {message : ClientMessage dm} (h : r.Modest a)
    (heffect : r.client.Effect a client (some message)) :
    ∀ msg, message = .renamed msg → 0 ≤ msg.userId.toInt →
      r.renames.count msg.userId < 3 := by
  rintro msg rfl hnonneg
  cases heffect with
  | userRenamed hdrawn _ _ _ _ _ =>
      rw [Modest, hdrawn] at h
      exact h
  | fakeUser hmessage hfake =>
      unfold Strategy.fakeMessage at hmessage
      split at hmessage <;> cases hmessage
      exact absurd hnonneg (not_le.mpr hfake)

/-- **A step of the client.** -/
theorem Tuned.perform (h : r.Tuned) (second : Fin 60) {a : StrategyStep dm}
    (hdraw : r.client.MayDraw a) (hrange : r.client.InRange a)
    (hmodest : r.Modest a) : ∃ r', r.perform second a = .ok r' ∧ r'.Tuned := by
  obtain ⟨client, message, hperform, heffect, hstep⟩ :=
    h.inTune.inStep.perform hdraw hrange
  cases message with
  | some message =>
      obtain ⟨-, hreport, hpublished⟩ := heffect.of_message
      obtain ⟨service, hservice, huserData, htune⟩ :=
        h.inTune.message heffect hstep hrange (hmodest.few heffect) second
      have hok : r.perform second a = .ok { r with
          client, service, renames := renamesAfter r.renames message } := by
        rw [Rehearsal.perform, hperform, ok_bind]
        dsimp only
        rw [hservice, ok_bind]
      refine ⟨_, hok, htune, fun w => ?_, ?_, ?_⟩
      · rw [huserData]
        exact h.ready w
      · rw [hreport]
        exact h.clean
      · rw [hpublished]
        exact h.published
  | none =>
      cases heffect with
      | begin | nextSecond =>
          exact ⟨_, rfl, h.inTune.quiet _, h.ready, h.clean, h.published⟩
      | @nextMinute minuteStart =>
          obtain ⟨service, hservice, htune⟩ :=
            h.inTune.nextMinute hstep rfl rfl rfl rfl hmodest
          obtain ⟨-, -, hreport, -⟩ := h.inTune.inStep.cur.setNextMinuteData
            r.client.prevMinData
          have hok : r.perform second (.nextMinute minuteStart) = .ok { r with
              client := { r.client with
                currentSecond := some minuteStart
                published := r.client.published ++
                  [r.client.prevMinData.publishValidationReport]
                prevMinData := r.client.prevMinData.setNextMinuteData
                  r.client.curMinData }
              service
              buffers := fun w => r.buffers w >>= fun b =>
                b.cache service.userData
              renames := [] } := by
            rw [Rehearsal.perform, hperform, ok_bind]
            dsimp only
            rw [hservice, ok_bind]
          refine ⟨_, hok, htune, fun w => ?_, ?_, fun p hp => ?_⟩
          · obtain ⟨b, hb, hready⟩ := h.ready w
            obtain ⟨b', hb', hready'⟩ := WorkerBuffers.cache_ready
              htune.settled.servable hready.error hready.rating.adapted
            refine ⟨b', ?_, hready'⟩
            dsimp only
            rw [hb, ok_bind, hb']
          · dsimp only
            rw [hreport]
            exact ValidationReport.clean_empty
          · rcases List.mem_append.mp hp with hp | hp
            · exact h.published p hp
            · rw [List.mem_singleton.mp hp]
              exact h.clean.publish

/-- **A worker's turn.** -/
theorem Tuned.serve (h : r.Tuned) (w : Fin n) (kind : QueueKind) :
    ∃ r', r.serve w kind = .ok r' ∧ r'.Tuned := by
  obtain ⟨hqueues, hjob⟩ := h.inTune.queues.takeJob w kind
  cases htaken : r.service.jobQueue.takeJob w kind with
  | mk job jobQueue =>
      rw [htaken] at hqueues hjob
      have htune : InTune r.client { r.service with jobQueue } r.renames :=
        ⟨h.inTune.inStep, h.inTune.settled, h.inTune.fits, h.inTune.spare,
          h.inTune.batch, hqueues, h.inTune.rating, h.inTune.room⟩
      cases job with
      | none =>
          have hok : r.serve w kind = .ok { r with
              service := { r.service with jobQueue } } := by
            rw [Rehearsal.serve, htaken]
          exact ⟨_, hok, htune, h.ready, h.clean, h.published⟩
      | some job =>
          have hin := hjob job rfl
          have hservable := h.inTune.settled.servable
          obtain ⟨b, hb, hready⟩ := h.ready w
          obtain ⟨frame, b', hprocess, hanswered, hready'⟩ :=
            WorkerBuffers.process_ready hservable hready hin.safe
          obtain ⟨response, hreads, hbrings⟩ :=
            hanswered.reads hservable h.inTune.room_rating hin.reported
          obtain ⟨reader, hturn⟩ := hreads r.reader []
          rw [List.append_nil] at hturn
          obtain ⟨prev, hvalidate, hreport, htune'⟩ :=
            htune.validate hin hbrings
          have hok : r.serve w kind = .ok { r with
              client := { r.client with prevMinData := prev }
              service := { r.service with jobQueue }
              buffers := Function.update r.buffers w (.ok b')
              reader } := by
            rw [Rehearsal.serve, htaken]
            dsimp only
            rw [hb, ok_bind, hprocess, ok_bind]
            dsimp only
            rw [hturn, ok_bind]
            dsimp only
            rw [Strategy.receive, hvalidate, ok_bind, ok_bind]
          refine ⟨_, hok, htune', fun w' => ?_, h.clean.valid hreport,
            h.published⟩
          dsimp only
          by_cases hw : w' = w
          · rw [hw, Function.update_self]
            exact ⟨b', rfl, hready'⟩
          · rw [Function.update_of_ne hw]
            exact h.ready w'

/-- **One step.** -/
theorem Tuned.step (h : r.Tuned) {a : RehearsalStep dm n} (ha : r.Allows a) :
    ∃ r', r.step a = .ok r' ∧ r'.Tuned := by
  cases a with
  | client second a => exact h.perform second ha.1 ha.2.1 ha.2.2
  | serve w kind => exact h.serve w kind
  | announce second order =>
      have htune := h.inTune
      refine ⟨_, rfl, ⟨htune.inStep, htune.settled, htune.fits, htune.spare,
        htune.batch, htune.queues.foldl_enqueueUserData fun p hp => ?_,
        htune.rating, htune.room⟩, h.ready, h.clean, h.published⟩
      have hmem : p ∈ r.service.iterationData.usersOnline second := by
        rw [← ha.2, List.mem_toFinset]
        exact hp
      exact ((htune.settled.consistent.buckets second p).mp hmem).live

/-! ## §4  Runs -/

/-- **The rehearsal goes well**: nothing fails on either side, the two ratings
are the same, and every response there has been is found valid. -/
theorem responses_valid (h : 0 < n) (steps : List (RehearsalStep dm n))
    (hallowed : Meets step Allows (start dm h) steps) :
    ∃ r, exec step (start dm h) steps = .ok r ∧
      r.service.userData.rating.map UserRef.owner =
        r.client.prevMinData.rating ∧
      r.client.prevMinData.report.Clean ∧
      ∀ p ∈ r.client.published, p.Clean := by
  obtain ⟨r, hr, htuned⟩ := exec_of_meets
    (fun r a hinv ha => Tuned.step hinv ha) steps _ (tuned_start dm h) hallowed
  exact ⟨r, hr, htuned.inTune.rating, htuned.clean, htuned.published⟩

/-! ### One minute, and the beginning of the next -/

/-- Two users, the one connected, renamed, and with a deal; two made-up users;
a promise of each sort. Behind the recalculation the user is announced. -/
def oneMinute : List (RehearsalStep .lp64 1) :=
  [.client 0 (.userRegistered [65]), .client 0 (.userRegistered [66]),
    .client 0 (.begin 58), .client 58 (.userConnected 0),
    .client 58 (.userDealWon 0 10), .client 58 (.userRenamed 0 [67]),
    .client 58 (.fakeUser 2), .client 58 (.fakeUser 2), .serve 0 .promises,
    .serve 0 .promises, .serve 0 .promises, .client 59 .nextSecond,
    .client 0 .nextSecond, .client 0 (.nextMinute 0), .announce 58 [⟨0, 1⟩],
    .serve 0 .userData, .serve 0 .errors, .serve 0 .errors]

theorem oneMinute_valid :
    ∃ r, exec step (start .lp64 Nat.one_pos) oneMinute = .ok r ∧
      r.client.prevMinData.report =
        { incomingRatings := 1, incomingErrors := 2
          validRatings := 1, validErrors := 2 } ∧
      r.client.published.length = 1 ∧
      ∀ p ∈ r.client.published, p.Clean := by
  obtain ⟨r, hr, -, -, hpublished⟩ :=
    responses_valid Nat.one_pos oneMinute (by decide +kernel)
  have hrun : (exec step (start .lp64 Nat.one_pos) oneMinute).toOption.map
      (fun r => (r.client.prevMinData.report, r.client.published.length)) =
        some ({ incomingRatings := 1, incomingErrors := 2
                validRatings := 1, validErrors := 2 }, 1) := by
    decide +kernel
  rw [hr] at hrun
  obtain ⟨hreport, hlength⟩ := Prod.mk.inj (Option.some_inj.mp hrun)
  exact ⟨r, hr, hreport, hlength, hpublished⟩

/-- Two users draw level. The client puts the one with the smaller id first,
the service the other one. -/
def level : List (RehearsalStep .lp64 1) :=
  [.client 0 (.userRegistered [65]), .client 0 (.userRegistered [66]),
    .client 0 (.begin 58), .client 58 (.userConnected 0),
    .client 58 (.userConnected 0), .client 58 (.userDealWon 0 10),
    .client 58 (.userDealWon 1 10), .client 59 .nextSecond,
    .client 0 .nextSecond, .client 0 (.nextMinute 0), .serve 0 .promises]

theorem level_fails :
    (exec step (start .lp64 Nat.one_pos) level).toOption.map
      (fun r => (r.client.prevMinData.rating,
        r.service.userData.rating.map UserRef.owner,
        r.client.prevMinData.report.failures)) =
      some ([0, 1], [1, 0], 1) := by
  decide +kernel

end Rehearsal

end RatingService
