import RatingService.Framework.Runs
import RatingService.Service.MessageDispatcher
import RatingService.Service.Recalculation

/-!
# Runs of the service

The service seen from outside: client messages go into the current buffer,
and every now and then a recalculation takes the buffer and works it into the
rating. Nothing in the code restricts the amounts of the deals.

- §1: the service and its steps.
- §2: what a recalculation asks of the batch it finds.
- §3: the rating over whole runs, and a run that fails.
-/

namespace RatingService

open Runs

variable {dm : DataModel} {n : ℕ}

/-! ## §1  The service -/

structure ServiceState (dm : DataModel) (n : ℕ) where
  userData : CoreRatingData dm := {}
  iterationData : IterationData := {}
  incomingData : IncomingDataDoubleBuffer dm := {}
  jobQueue : JobQueue n

inductive ServiceEvent (dm : DataModel) where
  | message (second : Fin 60) (msg : ClientMessage dm)
  | recalculate (dropOldRating : Bool)

namespace ServiceState

def calculator (st : ServiceState dm n) : RatingCalculatorImpl dm n :=
  .create st.userData st.iterationData st.incomingData.currentBuffer st.jobQueue

def step (st : ServiceState dm n) :
    ServiceEvent dm → Outcome (ServiceState dm n)
  | .message second msg =>
      let (buffer, jobQueue) :=
        dispatch second st.incomingData.currentBuffer st.jobQueue msg
      .ok { st with
        incomingData :=
          st.incomingData.setBuffer st.incomingData.currentBufferIndex buffer
        jobQueue }
  | .recalculate dropOldRating => do
      let s ← st.calculator.recalculate dropOldRating
      .ok
        { userData := s.userData
          iterationData := s.iterationData
          incomingData := (st.incomingData.setBuffer
            st.incomingData.currentBufferIndex s.incomingBuffer).switch
          jobQueue := s.jobQueue }

/-! ## §2  What a recalculation asks for -/

/-- The tables hold fewer than 2^31 users when a recalculation has registered
its batch's users, so that no `int` of the calculator overflows. -/
def FewUsers (st : ServiceState dm n) : ServiceEvent dm → Prop
  | .message _ _ => True
  | .recalculate _ => st.calculator.knownUsers.card < 2 ^ 31

/-- In the batch of a recalculation nobody without a deal moves up. -/
def MovesNobodyUp (st : ServiceState dm n) : ServiceEvent dm → Prop
  | .message _ _ => True
  | .recalculate dropOldRating =>
      NobodyMovesUp (st.calculator.oldRated dropOldRating)
        (st.calculator.batchState dropOldRating)
        st.incomingData.currentBuffer.dealsWon.toList

/-- **The invariant of the service.** -/
structure Sound (st : ServiceState dm n) : Prop where
  integrity : st.userData.RatingIntegrity
  disjoint : st.userData.Disjoint
  seconds : ∀ i, (st.incomingData.buffers i).SecondsOk

/-- The service starts with empty tables. -/
theorem sound_init (q : JobQueue n) :
    ({ jobQueue := q } : ServiceState dm n).Sound where
  integrity := CoreRatingData.ratingIntegrity_nil rfl fun _ => rfl
  disjoint := fun _ _ _ => rfl
  seconds := fun _ => secondsOk_empty

theorem Sound.ready {st : ServiceState dm n} (h : st.Sound)
    (hfew : st.calculator.knownUsers.card < 2 ^ 31) : st.calculator.Ready where
  integrity := h.integrity
  disjoint := h.disjoint
  seconds := h.seconds _
  noPatches := rfl
  noFresh := rfl
  fewUsers := hfew

/-- **One step of the service**: it keeps the invariant, or it is a
recalculation that would move somebody up and fails in the assertion. -/
theorem Sound.step {st : ServiceState dm n} (h : st.Sound)
    (ev : ServiceEvent dm) (hfew : st.FewUsers ev) :
    (st.MovesNobodyUp ev ∧ ∃ st', st.step ev = .ok st' ∧ st'.Sound) ∨
      (¬ st.MovesNobodyUp ev ∧ st.step ev = .error .assertion) := by
  cases ev with
  | message second msg =>
      refine Or.inl ⟨trivial, _, rfl, h.integrity, h.disjoint, fun i => ?_⟩
      exact IncomingDataDoubleBuffer.setBuffer_secondsOk h.seconds
        (dispatch_secondsOk second _ msg (h.seconds _)) i
  | recalculate dropOldRating =>
      have hready := h.ready hfew
      rcases st.calculator.recalculate_spec hready dropOldRating with
        ⟨hup, s', hs', hranked⟩ | ⟨hup, hs'⟩
      · refine Or.inl ⟨hup, _, by rw [ServiceState.step, hs', ok_bind],
          hranked.integrity, hranked.disjoint, fun i => ?_⟩
        refine IncomingDataDoubleBuffer.setBuffer_secondsOk h.seconds ?_ i
        rw [RatingCalculatorImpl.recalculate_incomingBuffer hready.disjoint
          hready.seconds hs']
        exact secondsOk_empty
      · refine Or.inr ⟨hup, ?_⟩
        rw [ServiceState.step, hs']
        rfl

end ServiceState

/-! ## §3  The rating over whole runs -/

/-- **Rating integrity over whole runs**: while the tables hold fewer than
2^31 users, a run completes and is intact all along exactly where no
recalculation in it would move somebody without a deal up. -/
theorem rating_intact_iff (q : JobQueue n) (evs : List (ServiceEvent dm))
    (hfew : Meets ServiceState.step ServiceState.FewUsers { jobQueue := q }
      evs) :
    (∀ pre, pre <+: evs → ∃ st,
        exec ServiceState.step { jobQueue := q } pre = .ok st ∧
          st.userData.RatingIntegrity) ↔
      Meets ServiceState.step ServiceState.MovesNobodyUp { jobQueue := q }
        evs := by
  have hexact := fun pre => exec_exact
    (fun _ ev hst hev => (ServiceState.Sound.step hst ev hev).imp_right
      (And.imp_right fun h => ⟨_, h⟩)) pre
    ({ jobQueue := q } : ServiceState dm n) (ServiceState.sound_init q)
  constructor
  · intro hall
    rcases hexact evs hfew with ⟨hup, -⟩ | ⟨-, e, he⟩
    · exact hup
    · obtain ⟨st, hst, -⟩ := hall evs (List.prefix_refl evs)
      exact absurd (hst.symm.trans he) (by simp)
  · rintro hup pre ⟨post, rfl⟩
    rcases hexact pre hfew.prefix with ⟨-, st, hst, hsound⟩ | ⟨hnot, -⟩
    · exact ⟨st, hst, hsound.integrity⟩
    · exact absurd hup.prefix hnot

/-! ### Four users in a rating -/

theorem nobodyMovesUp_iff {old : IdT → Option (RatedData dm)}
    {state : IdT → UserState dm} {deals : List (IdT × MonetaryT dm)}
    (ids : List IdT) (hids : ∀ id, (old id).isSome → id ∈ ids) :
    NobodyMovesUp old state deals ↔
      ∀ id ∈ ids, ∀ r ∈ old id, id ∉ deals.map Prod.fst →
        (deals.countP fun e => (state e.1).isRegistered &&
          decide ((oldWinnings old e.1 + e.2).toInt ≤ r.amountWon.toInt)) ≤
        (deals.countP fun e => (state e.1).isSilent) +
          deals.countP fun e =>
            (old e.1).any fun r' => decide (r.rank < r'.rank) :=
  ⟨fun h id _ r hr => h id r hr,
    fun h id r hr => h id (hids id (Option.isSome_of_mem hr)) r hr⟩

instance (st : ServiceState dm n) (ev : ServiceEvent dm) :
    Decidable (st.FewUsers ev) :=
  match ev with
  | .message _ _ => .isTrue trivial
  | .recalculate _ => inferInstanceAs (Decidable (_ < _))

instance (st : ServiceState dm n) (ev : ServiceEvent dm) :
    Decidable (st.MovesNobodyUp ev) :=
  match ev with
  | .message _ _ => .isTrue trivial
  | .recalculate dropOldRating =>
      -- by the list of the keys, not by all ids there are
      @decidable_of_iff _ _ (nobodyMovesUp_iff st.userData.activeUsers.keys
        fun id h => by
          unfold RatingCalculatorImpl.oldRated at h
          split at h
          · cases h
          · rw [CoreRatingData.rated, Option.isSome_map] at h
            exact AList.lookup_isSome.mp h).symm (List.decidableBAll _ _)

/-- The last of four users gets past two others, who move down; the rating is
dropped, and two users come back. -/
def climbing : List (ServiceEvent .lp64) :=
  [.message 0 (.registered ⟨⟨1⟩, []⟩), .message 0 (.registered ⟨⟨2⟩, []⟩),
    .message 0 (.registered ⟨⟨3⟩, []⟩), .message 0 (.registered ⟨⟨4⟩, []⟩),
    .message 1 (.dealWon ⟨⟨1⟩, 40⟩), .message 1 (.dealWon ⟨⟨2⟩, 30⟩),
    .message 1 (.dealWon ⟨⟨3⟩, 20⟩), .message 1 (.dealWon ⟨⟨4⟩, 10⟩),
    .recalculate false, .message 2 (.dealWon ⟨⟨4⟩, 25⟩), .recalculate false,
    .message 3 (.dealWon ⟨⟨2⟩, 1⟩), .message 3 (.dealWon ⟨⟨1⟩, 2⟩),
    .recalculate true]

theorem climbing_intact :
    Meets ServiceState.step ServiceState.MovesNobodyUp
      { jobQueue := twoWorkers } climbing ∧
    (exec ServiceState.step { jobQueue := twoWorkers }
      (climbing.take 11)).toOption.map
        (fun st => st.userData.rating.map UserRef.owner) = some [1, 4, 2, 3] ∧
    ∀ pre, pre <+: climbing → ∃ st,
      exec ServiceState.step { jobQueue := twoWorkers } pre = .ok st ∧
        st.userData.RatingIntegrity := by
  have hup : Meets ServiceState.step ServiceState.MovesNobodyUp
      { jobQueue := twoWorkers } climbing := by
    decide +kernel
  refine ⟨hup, by decide +kernel, ?_⟩
  exact (rating_intact_iff _ _ (by decide +kernel)).mpr hup

/-- The smallest trouble: two users draw level, and the one in front gets a
deal of zero. -/
def zeroDeal : List (ServiceEvent .lp64) :=
  [.message 0 (.registered ⟨⟨1⟩, []⟩), .message 0 (.registered ⟨⟨2⟩, []⟩),
    .message 0 (.dealWon ⟨⟨1⟩, 10⟩), .message 0 (.dealWon ⟨⟨2⟩, 10⟩),
    .recalculate false, .message 0 (.dealWon ⟨⟨2⟩, 0⟩), .recalculate false]

theorem zeroDeal_fails :
    exec ServiceState.step { jobQueue := twoWorkers } zeroDeal =
      .error .assertion := by
  rfl

end RatingService
