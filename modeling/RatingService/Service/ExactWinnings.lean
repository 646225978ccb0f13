import RatingService.Framework.ExactLedger
import RatingService.Service.Minutes
import RatingService.Service.RatingCapacity

/-!
# The additions of money

Money is added up in two places: `dispatch` adds the deals of a user since the
last recalculation, `processDeals` adds their sum to his winnings. Both add in
`monetary_t`, and nothing checks an amount.

- §1: the exact account of a run.
- §2: the additions the code performs.
- §3: the additions of one batch.
- §4: the tables hold the account's sums, up to a wrap.
- §5: an addition overflows exactly where an exact sum leaves the range.
- §6: two deals whose sum does.
-/

namespace RatingService

open FixedWidth Runs

variable {dm : DataModel} {n : ℕ}

/-! ## §1  The account -/

theorem DataModel.bits_pos (dm : DataModel) : 0 < 8 * dm.sizeofLong := by
  cases dm <;> decide

def ServiceEvent.enter (account : ExactLedger IdT) :
    ServiceEvent dm → ExactLedger IdT
  | .message _ (.registered msg) => account.enroll msg.userId
  | .message _ (.dealWon msg) => account.credit msg.userId msg.winnings.toInt
  | .message _ _ => account
  | .recalculate dropOldRating => account.settle dropOldRating

/-- **The exact account** of a run: for which users a registration came in,
their deals since the last recalculation, and the deals recalculations have
worked in since the last drop. Deals of users nobody registered are
discarded. -/
def account (evs : List (ServiceEvent dm)) : ExactLedger IdT :=
  evs.foldl ServiceEvent.enter {}

theorem account_concat (evs : List (ServiceEvent dm)) (ev : ServiceEvent dm) :
    account (evs ++ [ev]) = ev.enter (account evs) := by
  rw [account, List.foldl_append]
  rfl

/-! ## §2  The additions -/

namespace RatingCalculatorImpl

/-- `userProfile->amountWon + newDeal.second`, in one turn of the loop of
`processDeals`, stays in the range of `monetary_t`. Only users who had rating
before get there. -/
def DealFits (s : RatingCalculatorImpl dm n)
    (newDeal : IdT × MonetaryT dm) : Prop :=
  ∀ userProfile, s.userData.activeUsers.lookup newDeal.1 = some userProfile →
    userProfile.amountWon.saddOverflow newDeal.2 = false

end RatingCalculatorImpl

/-- The additions of one event stay in the range of `monetary_t`: for a deal
`dealsWon[id] += amount`, for a recalculation the ones of `processDeals`. -/
def ServiceState.AdditionsFit (st : ServiceState dm n) :
    ServiceEvent dm → Prop
  | .message _ (.dealWon msg) =>
      ((st.incomingData.currentBuffer.dealsWon[msg.userId]?).getD
        0).saddOverflow msg.winnings = false
  | .message _ _ => True
  | .recalculate dropOldRating =>
      ∀ s, st.calculator.beforeDeals dropOldRating = .ok s →
        Meets RatingCalculatorImpl.processDeal RatingCalculatorImpl.DealFits s
          s.incomingBuffer.dealsWon.toList

/-! ## §3  One batch -/

namespace RatingCalculatorImpl

variable {s s' : RatingCalculatorImpl dm n} {dropOldRating : Bool}

theorem dealFits_iff {e : IdT × MonetaryT dm} :
    s.DealFits e ↔ ∀ r, s.userData.rated e.1 = some r →
      r.amountWon.saddOverflow e.2 = false := by
  constructor
  · intro h r hr
    obtain ⟨u, hu, rfl⟩ := Option.map_eq_some_iff.mp hr
    exact h u hu
  · intro h u hu
    refine h u.rated ?_
    rw [CoreRatingData.rated, hu]
    rfl

theorem rated_of_userState {id : IdT} {r : RatedData dm}
    (h : s'.userState id = s.userState id)
    (hr : s.userData.rated id = some r) : s'.userData.rated id = some r := by
  obtain ⟨u, hu, rfl⟩ := CoreRatingData.active_of_rated hr
  exact CoreRatingData.rated_of_active (h.trans hu)

theorem dealFits_processDeal {e e' : IdT × MonetaryT dm}
    (hdisj : s.userData.Disjoint) (h : s.processDeal e = .ok s')
    (hne : e'.1 ≠ e.1) : s'.DealFits e' ↔ s.DealFits e' := by
  obtain ⟨-, -, hother⟩ := processDeal_of_ok hdisj h
  have hsame := hother e'.1 hne
  rw [dealFits_iff, dealFits_iff]
  constructor
  · exact fun hfits r hr => hfits r (rated_of_userState hsame hr)
  · exact fun hfits r hr => hfits r (rated_of_userState hsame.symm hr)

/-- **The additions of a loop that completes** are those its first state is
ready for: no user has two deals in a batch. -/
theorem meets_dealFits_iff :
    ∀ (deals : List (IdT × MonetaryT dm)) {s s' : RatingCalculatorImpl dm n},
      (deals.map Prod.fst).Nodup → s.userData.Disjoint →
      deals.foldlM processDeal s = .ok s' →
      (Meets processDeal DealFits s deals ↔ ∀ e ∈ deals, s.DealFits e)
  | [], _, _, _, _, _ => by simp [Meets]
  | e :: deals, s, s', hnd, hdisj, h => by
      rw [List.map_cons, List.nodup_cons] at hnd
      rw [List.foldlM_cons] at h
      obtain ⟨s₁, hs₁, h⟩ := bind_eq_ok.mp h
      have hdisj₁ := (processDeal_of_ok hdisj hs₁).1
      have ih := meets_dealFits_iff deals hnd.2 hdisj₁ h
      have hsame : ∀ e' ∈ deals, (s₁.DealFits e' ↔ s.DealFits e') := by
        intro e' he'
        apply dealFits_processDeal hdisj hs₁
        intro heq
        exact hnd.1 (heq ▸ List.mem_map_of_mem he')
      rw [Meets, List.forall_mem_cons]
      apply and_congr_right
      intro _
      constructor
      · intro hrest e' he'
        exact (hsame e' he').mp (ih.mp (hrest s₁ hs₁) e' he')
      · intro hrest s₂ hs₂
        obtain rfl : s₁ = s₂ := Except.ok.inj (hs₁.symm.trans hs₂)
        exact ih.mpr fun e' he' => (hsame e' he').mpr (hrest e' he')

/-- **The additions of a recalculation**, said about the state it starts in. -/
theorem Sized.dealFits_iff (hsized : s.Sized) :
    (∀ s₁, s.beforeDeals dropOldRating = .ok s₁ →
      Meets processDeal DealFits s₁ s₁.incomingBuffer.dealsWon.toList) ↔
    ∀ (id : IdT) (a : MonetaryT dm) r,
      s.incomingBuffer.dealsWon[id]? = some a →
      s.oldRated dropOldRating id = some r →
      r.amountWon.saddOverflow a = false := by
  obtain ⟨s₁, hs₁, h⟩ :=
    beforeDeals_spec dropOldRating hsized.disjoint hsized.seconds
  have hsize : s₁.userData.rating.length < 2 ^ 31 := by
    rw [h.rating]
    split
    · exact Nat.two_pow_pos 31
    · exact hsized.size
  obtain ⟨s₂, hs₂, -⟩ := processDeals_spec (h.integrity hsized.integrity) hsize
    h.disjoint (h.ratingPatches.trans hsized.noPatches)
    (h.freshRatings.trans hsized.noFresh)
  obtain ⟨s₃, hs₃, -⟩ := bind_eq_ok.mp hs₂
  have hmeets :=
    meets_dealFits_iff _ (nodup_toList_keys _) h.disjoint hs₃
  constructor
  · intro hall id a r ha hr
    have hmem : (id, a) ∈ s₁.incomingBuffer.dealsWon.toList := by
      rw [h.incomingBuffer]
      exact Std.TreeMap.mem_toList_iff_getElem?_eq_some.mpr ha
    refine RatingCalculatorImpl.dealFits_iff.mp
      (hmeets.mp (hall s₁ hs₁) _ hmem) r ?_
    rw [h.rated_eq]
    exact hr
  · intro hall s₁' hs₁'
    obtain rfl : s₁ = s₁' := Except.ok.inj (hs₁.symm.trans hs₁')
    refine hmeets.mpr fun e he => RatingCalculatorImpl.dealFits_iff.mpr ?_
    intro r hr
    rw [h.incomingBuffer] at he
    rw [h.rated_eq] at hr
    exact hall e.1 e.2 r (getElem?_of_mem_toList he) hr

end RatingCalculatorImpl

/-! ## §4  The tables and the account -/

theorem CoreRatingData.isSome_rated (d : CoreRatingData dm) (id : IdT) :
    (d.rated id).isSome = (d.userState id).isActive := by
  cases hactive : (d.userState id).isActive with
  | false => rw [rated_eq_none hactive, Option.isSome_none]
  | true =>
      rw [isActive_iff, ← AList.lookup_isSome] at hactive
      rw [rated, Option.isSome_map]
      exact hactive

namespace ServiceState

/-- **The invariant**: what the buffer and the records store are the sums of
the account's deals, wrapped into `monetary_t`. -/
structure Balanced (st : ServiceState dm n) (acc : ExactLedger IdT) : Prop where
  sound : st.Sound
  size : st.userData.rating.length < 2 ^ 31
  other : ∀ i, i ≠ st.incomingData.currentBufferIndex →
    st.incomingData.buffers i = {}
  known : ∀ id, acc.known id = ((st.userData.userState id).isRegistered ||
    (st.incomingData.currentBuffer.usersRegistered[id]?).isSome)
  pending : ∀ id, st.incomingData.currentBuffer.dealsWon[id]? =
    stored (8 * dm.sizeofLong) (acc.pending id)
  settled : ∀ id, (st.userData.rated id).map RatedData.amountWon =
    stored (8 * dm.sizeofLong) (acc.settled id)

variable {st st' : ServiceState dm n} {acc acc' : ExactLedger IdT}

theorem balanced_init (q : JobQueue n) :
    ({ jobQueue := q } : ServiceState dm n).Balanced {} where
  sound := sound_init q
  size := Nat.two_pow_pos 31
  other := fun _ _ => rfl
  known := fun id => by
    show false = (false || ((∅ : Std.TreeMap IdT BufferT)[id]?).isSome)
    simp
  pending := fun id => by
    show (∅ : DealsMap dm)[id]? = none
    simp
  settled := fun _ => rfl

theorem Balanced.setBuffer (h : st.Balanced acc) {queue : JobQueue n}
    {buffer : IncomingDataBuffer dm} (hsec : buffer.SecondsOk)
    (hsettled : acc'.settled = acc.settled)
    (hknown : ∀ id, acc'.known id =
      ((st.userData.userState id).isRegistered ||
        (buffer.usersRegistered[id]?).isSome))
    (hpending : ∀ id, buffer.dealsWon[id]? =
      stored (8 * dm.sizeofLong) (acc'.pending id)) :
    Balanced { st with
      incomingData :=
        st.incomingData.setBuffer st.incomingData.currentBufferIndex buffer
      jobQueue := queue } acc' := by
  have hbuffer : (st.incomingData.setBuffer
      st.incomingData.currentBufferIndex buffer).currentBuffer = buffer :=
    Function.update_self ..
  refine ⟨⟨h.sound.integrity, h.sound.disjoint, fun i => ?_⟩, h.size, ?_, ?_,
    ?_, ?_⟩
  · exact IncomingDataDoubleBuffer.setBuffer_secondsOk h.sound.seconds hsec i
  · intro i hi
    exact (Function.update_of_ne hi ..).trans (h.other i hi)
  · intro id
    rw [hbuffer]
    exact hknown id
  · intro id
    rw [hbuffer]
    exact hpending id
  · rw [hsettled]
    exact h.settled

/-- **A message** is entered as its kind says. -/
theorem Balanced.message (h : st.Balanced acc) {second : Fin 60}
    {msg : ClientMessage dm} (hs : st.step (.message second msg) = .ok st') :
    st'.Balanced ((ServiceEvent.message second msg).enter acc) := by
  have hsec : (dispatch second st.incomingData.currentBuffer st.jobQueue
      msg).1.SecondsOk := dispatch_secondsOk second _ msg (h.sound.seconds _)
  rw [dispatch_fst] at hsec
  rw [step_message] at hs
  cases hs
  cases msg with
  | registered msg =>
      refine h.setBuffer hsec rfl (fun id => ?_) h.pending
      show (acc.enroll msg.userId).known id = (_ ||
        ((st.incomingData.currentBuffer.usersRegistered.insertIfNew msg.userId
          msg.userName)[id]?).isSome)
      rw [ExactLedger.known_enroll, h.known, getElem?_insertIfNew]
      by_cases hid : msg.userId = id
      · simp [hid]
      · simp [hid]
  | renamed msg => exact h.setBuffer hsec rfl h.known h.pending
  | connected msg => exact h.setBuffer hsec rfl h.known h.pending
  | disconnected msg => exact h.setBuffer hsec rfl h.known h.pending
  | dealWon msg =>
      refine h.setBuffer hsec rfl h.known (fun id => ?_)
      show (st.incomingData.currentBuffer.dealsWon.insert msg.userId
        ((st.incomingData.currentBuffer.dealsWon[msg.userId]?).getD 0 +
          msg.winnings))[id]? = stored _
            ((acc.credit msg.userId msg.winnings.toInt).pending id)
      rw [getElem?_insert, h.pending, h.pending]
      by_cases hid : msg.userId = id
      · rw [if_pos hid, ← hid, ExactLedger.pending_credit_self, stored_concat]
      · rw [if_neg hid, ExactLedger.pending_credit_ne acc (Ne.symm hid)]

theorem Balanced.sized (h : st.Balanced acc) : st.calculator.Sized where
  integrity := h.sound.integrity
  disjoint := h.sound.disjoint
  seconds := h.sound.seconds _
  noPatches := rfl
  noFresh := rfl
  size := h.size

theorem Balanced.oldRated (h : st.Balanced acc) (dropOldRating : Bool)
    (id : IdT) :
    (st.calculator.oldRated dropOldRating id).map RatedData.amountWon =
      stored (8 * dm.sizeofLong) (acc.kept dropOldRating id) := by
  cases dropOldRating with
  | true => rfl
  | false => exact h.settled id

theorem Balanced.isRegistered_batchState (h : st.Balanced acc)
    (dropOldRating : Bool) (id : IdT) :
    (st.calculator.batchState dropOldRating id).isRegistered =
      acc.known id := by
  rw [RatingCalculatorImpl.isRegistered_batchState, h.known]
  rfl

theorem Balanced.isActive_batchState (h : st.Balanced acc)
    (dropOldRating : Bool) (id : IdT) :
    (st.calculator.batchState dropOldRating id).isActive =
      decide (acc.kept dropOldRating id ≠ []) := by
  have hold := congrArg Option.isSome (h.oldRated dropOldRating id)
  rw [Option.isSome_map, isSome_stored] at hold
  rw [← hold, RatingCalculatorImpl.isActive_batchState]
  cases dropOldRating with
  | true => rfl
  | false => exact (st.userData.isSome_rated id).symm

theorem Balanced.newWinnings (h : st.Balanced acc) (dropOldRating : Bool)
    (id : IdT) :
    RatingService.newWinnings (st.calculator.oldRated dropOldRating)
      st.incomingData.currentBuffer.dealsWon id =
        BitVec.ofInt _ ((acc.kept dropOldRating id).sum +
          (acc.pending id).sum) := by
  rw [RatingService.newWinnings, oldWinnings,
    h.oldRated, h.pending, BitVec.ofInt_add]
  exact congrArg₂ _ (getD_stored _) (getD_stored _)

/-- Behind a recalculation rated are those who keep something or had a deal
worked in. -/
theorem Balanced.isActive_reranked (h : st.Balanced acc) {dropOldRating : Bool}
    {d' : CoreRatingData dm}
    (hranked : RatingCalculatorImpl.Reranked
      (st.calculator.oldRated dropOldRating)
      (st.calculator.batchState dropOldRating)
      st.incomingData.currentBuffer.dealsWon d') (id : IdT) :
    (d'.userState id).isActive ↔
      (acc.settle dropOldRating).settled id ≠ [] := by
  rw [hranked.active, ExactLedger.settled_settle_ne_nil,
    ← h.isRegistered_batchState dropOldRating, h.pending, isSome_stored,
    UserState.isRegistered_eq, h.isActive_batchState]
  by_cases hkept : acc.kept dropOldRating id = []
  · simp [hkept]
  · simp [hkept]

/-- **A recalculation** settles the account. -/
theorem Balanced.recalculate (h : st.Balanced acc) {dropOldRating : Bool}
    (hs : st.step (.recalculate dropOldRating) = .ok st') :
    st'.Balanced (acc.settle dropOldRating) := by
  obtain ⟨c, hc, hs⟩ := bind_eq_ok.mp hs
  cases hs
  obtain ⟨hranked, hsize⟩ :=
    RatingCalculatorImpl.recalculate_reranked h.sized hc
  have hclear := RatingCalculatorImpl.recalculate_incomingBuffer
    (s := st.calculator) h.sound.disjoint (h.sound.seconds _) hc
  have hempty : ∀ i, ((st.incomingData.setBuffer
      st.incomingData.currentBufferIndex
        c.incomingBuffer).switch).buffers i = {} := by
    rw [hclear]
    exact IncomingDataDoubleBuffer.buffers_cleared h.other
  have hcurrent : ((st.incomingData.setBuffer
      st.incomingData.currentBufferIndex
        c.incomingBuffer).switch).currentBuffer = {} := hempty _
  refine ⟨⟨hranked.integrity, hranked.disjoint, fun i => ?_⟩, hsize,
    fun i _ => hempty i, fun id => ?_, fun id => ?_, fun id => ?_⟩
  · rw [hempty i]
    exact secondsOk_empty
  · rw [hcurrent, hranked.registered, h.isRegistered_batchState]
    show acc.known id =
      (_ || ((∅ : Std.TreeMap IdT BufferT)[id]?).isSome)
    simp
  · rw [hcurrent]
    show (∅ : DealsMap dm)[id]? = none
    simp
  · have hactive := h.isActive_reranked hranked id
    apply eq_stored
    · rw [Option.isSome_map, CoreRatingData.isSome_rated]
      exact hactive
    · show c.userData.winnings id = _
      cases hid : (c.userData.userState id).isActive with
      | true =>
          have hknown := hranked.registered id
          rw [UserState.isRegistered_eq, hid, Bool.true_or,
            h.isRegistered_batchState] at hknown
          rw [hranked.winnings id hid]
          exact (h.newWinnings dropOldRating id).trans (congrArg _
            (ExactLedger.total_settle_known hknown.symm).symm)
      | false =>
          have hnone : (acc.settle dropOldRating).settled id = [] := by
            rw [hid] at hactive
            simpa using hactive
          rw [hnone, CoreRatingData.winnings,
            CoreRatingData.rated_eq_none hid]
          rfl

theorem Balanced.step (h : st.Balanced acc) {ev : ServiceEvent dm}
    (hs : st.step ev = .ok st') : st'.Balanced (ev.enter acc) := by
  cases ev with
  | message second msg => exact h.message hs
  | recalculate dropOldRating => exact h.recalculate hs

theorem balanced_of_run (q : JobQueue n) (evs : List (ServiceEvent dm)) :
    ∀ {st : ServiceState dm n},
      exec ServiceState.step { jobQueue := q } evs = .ok st →
        st.Balanced (account evs) := by
  induction evs using List.reverseRecOn with
  | nil =>
      intro st hst
      cases hst
      exact balanced_init q
  | append_singleton evs ev ih =>
      intro st hst
      obtain ⟨st₁, hst₁, hs⟩ := exec_concat hst
      rw [account_concat]
      exact (ih hst₁).step hs

/-! ## §5  Overflow -/

theorem Balanced.recalculate_fits_iff (h : st.Balanced acc)
    (hfits : acc.Fits (8 * dm.sizeofLong)) (dropOldRating : Bool) :
    st.AdditionsFit (.recalculate dropOldRating) ↔
      (acc.settle dropOldRating).Fits (8 * dm.sizeofLong) := by
  have hsum : ∀ id,
      (BitVec.ofInt _ (acc.kept dropOldRating id).sum).saddOverflow
          (BitVec.ofInt (8 * dm.sizeofLong) (acc.pending id).sum) = false ↔
        InRange (8 * dm.sizeofLong)
          ((acc.kept dropOldRating id).sum + (acc.pending id).sum) :=
    fun id => (hfits.kept dropOldRating id).saddOverflow_iff dm.bits_pos
      (hfits.pending id)
  refine Iff.trans h.sized.dealFits_iff ?_
  rw [ExactLedger.fits_settle_iff hfits]
  constructor
  · intro hall id _ hkept hpending
    have hold := h.oldRated dropOldRating id
    rw [stored_eq_some.mpr ⟨hkept, rfl⟩] at hold
    obtain ⟨r, hr, hamount⟩ := Option.map_eq_some_iff.mp hold
    have hdeal := (h.pending id).trans (stored_eq_some.mpr ⟨hpending, rfl⟩)
    have hfit := hall id _ r hdeal hr
    rw [hamount] at hfit
    exact (hsum id).mp hfit
  · intro hall id a r ha hr
    have hold := h.oldRated dropOldRating id
    rw [hr, Option.map_some] at hold
    obtain ⟨hkept, hamount⟩ := stored_eq_some.mp hold.symm
    obtain ⟨hpending, hdeal⟩ :=
      stored_eq_some.mp ((h.pending id).symm.trans ha)
    -- a user who keeps something is registered
    have hknown : acc.known id = true := by
      rw [← h.isRegistered_batchState dropOldRating,
        UserState.isRegistered_eq, h.isActive_batchState, decide_eq_true hkept,
        Bool.true_or]
    rw [hamount, hdeal]
    exact (hsum id).mpr (hall id hknown hkept hpending)

/-- **One event**: its additions stay in range exactly when the exact sums
it forms do. -/
theorem Balanced.additionsFit_iff (h : st.Balanced acc)
    (hfits : acc.Fits (8 * dm.sizeofLong)) (ev : ServiceEvent dm) :
    st.AdditionsFit ev ↔ (ev.enter acc).Fits (8 * dm.sizeofLong) := by
  cases ev with
  | recalculate dropOldRating => exact h.recalculate_fits_iff hfits _
  | message second msg =>
      cases msg with
      | registered msg =>
          exact iff_of_true trivial (ExactLedger.fits_enroll hfits)
      | renamed msg => exact iff_of_true trivial hfits
      | connected msg => exact iff_of_true trivial hfits
      | disconnected msg => exact iff_of_true trivial hfits
      | dealWon msg =>
          have hsum := (hfits.pending msg.userId).saddOverflow_iff
            dm.bits_pos (inRange_toInt msg.winnings)
          rw [BitVec.ofInt_toInt, ← getD_stored, ← h.pending] at hsum
          exact hsum.trans (ExactLedger.fits_credit_iff hfits).symm

end ServiceState

theorem account_fits (q : JobQueue n) (evs : List (ServiceEvent dm))
    (hsums : ∀ pre ev, pre ++ [ev] <+: evs →
      (∃ st, exec ServiceState.step { jobQueue := q } pre = .ok st) →
      (account pre).Fits (8 * dm.sizeofLong) →
      (account (pre ++ [ev])).Fits (8 * dm.sizeofLong)) :
    ∀ pre, pre <+: evs →
      (∃ st, exec ServiceState.step { jobQueue := q } pre = .ok st) →
      (account pre).Fits (8 * dm.sizeofLong) := by
  intro pre
  induction pre using List.reverseRecOn with
  | nil => exact fun _ _ => ExactLedger.fits_empty _
  | append_singleton pre ev ih =>
      rintro hpre ⟨st, hst⟩
      obtain ⟨st₁, hst₁, -⟩ := exec_concat hst
      have hbefore : pre <+: evs := (List.prefix_append pre [ev]).trans hpre
      exact hsums pre ev hpre ⟨st₁, hst₁⟩ (ih hbefore ⟨st₁, hst₁⟩)

theorem account_fits_concat {q : JobQueue n} {evs : List (ServiceEvent dm)}
    (hmeets : Meets ServiceState.step ServiceState.AdditionsFit
      { jobQueue := q } evs) (pre : List (ServiceEvent dm))
    (ev : ServiceEvent dm) (hpre : pre ++ [ev] <+: evs)
    (hrun : ∃ st, exec ServiceState.step { jobQueue := q } pre = .ok st)
    (hfits : (account pre).Fits (8 * dm.sizeofLong)) :
    (account (pre ++ [ev])).Fits (8 * dm.sizeofLong) := by
  obtain ⟨st, hst⟩ := hrun
  have hbalanced := ServiceState.balanced_of_run q pre hst
  rw [account_concat]
  apply (hbalanced.additionsFit_iff hfits ev).mp
  exact meets_iff.mp hmeets pre ev hpre st hst

/-- **Where the additions of money overflow**, for all deals and all
placements of recalculations: both additions stay in the range of `monetary_t`
exactly as long as the exact sums they form do, the deals of a user since the
last recalculation and, at a recalculation, all deals of a known user. What is
stored is the exact sum then, and its wrap in any case. -/
theorem additions_fit_iff (q : JobQueue n) (evs : List (ServiceEvent dm)) :
    (Meets ServiceState.step ServiceState.AdditionsFit { jobQueue := q } evs ↔
      ∀ pre ev, pre ++ [ev] <+: evs →
        (∃ st, exec ServiceState.step { jobQueue := q } pre = .ok st) →
        (account (pre ++ [ev])).Fits (8 * dm.sizeofLong)) ∧
    ∀ pre, pre <+: evs → ∀ st,
      exec ServiceState.step { jobQueue := q } pre = .ok st →
      ∀ id userProfile,
        st.userData.activeUsers.lookup id = some userProfile →
        userProfile.amountWon = BitVec.ofInt _ ((account pre).total id) ∧
        (Meets ServiceState.step ServiceState.AdditionsFit { jobQueue := q }
            evs →
          userProfile.amountWon.toInt = (account pre).total id) := by
  constructor
  · constructor
    · intro hmeets pre ev hpre hrun
      have hconcat := account_fits_concat hmeets
      have hbefore : pre <+: evs := (List.prefix_append pre [ev]).trans hpre
      apply hconcat pre ev hpre hrun
      exact account_fits q evs hconcat pre hbefore hrun
    · intro hsums
      apply meets_iff.mpr
      intro pre ev hpre st hst
      have hbefore : pre <+: evs := (List.prefix_append pre [ev]).trans hpre
      have hfits := account_fits q evs
        (fun pre ev hpre hrun _ => hsums pre ev hpre hrun) pre hbefore ⟨st, hst⟩
      apply ((ServiceState.balanced_of_run q pre hst).additionsFit_iff hfits
        ev).mpr
      rw [← account_concat]
      exact hsums pre ev hpre ⟨st, hst⟩
  · intro pre hpre st hst id userProfile hlookup
    have hstored := (ServiceState.balanced_of_run q pre hst).settled id
    rw [CoreRatingData.rated, hlookup] at hstored
    have hamount := (stored_eq_some.mp hstored.symm).2
    refine ⟨hamount, fun hmeets => ?_⟩
    have hfits := account_fits q evs (account_fits_concat hmeets) pre hpre
      ⟨st, hst⟩
    calc userProfile.amountWon.toInt
        = (BitVec.ofInt _ ((account pre).total id)).toInt :=
          congrArg BitVec.toInt hamount
      _ = (account pre).total id := (hfits.total id).toInt_ofInt dm.bits_pos

/-! ## §6  Two deals -/

/-- The largest amount, and another deal of one, in the same batch. -/
def twoDeals : List (ServiceEvent .lp64) :=
  [.message 0 (.registered ⟨⟨1⟩, []⟩),
    .message 0 (.dealWon ⟨⟨1⟩, BitVec.intMax 64⟩),
    .message 0 (.dealWon ⟨⟨1⟩, 1⟩)]

def twoMinutes : List (ServiceEvent .lp64) :=
  [.message 0 (.registered ⟨⟨1⟩, []⟩),
    .message 0 (.dealWon ⟨⟨1⟩, BitVec.intMax 64⟩), .recalculate false,
    .message 0 (.dealWon ⟨⟨1⟩, 1⟩), .recalculate false]

/-- The first addition overflows in the one run, the second one in the other,
which ends with negative winnings. -/
theorem twoDeals_overflow :
    ¬ Meets ServiceState.step ServiceState.AdditionsFit
      { jobQueue := twoWorkers } twoDeals ∧
    ¬ Meets ServiceState.step ServiceState.AdditionsFit
      { jobQueue := twoWorkers } twoMinutes ∧
    (account twoMinutes).total 1 = 2 ^ 63 ∧
    ∃ st, exec ServiceState.step { jobQueue := twoWorkers } twoMinutes =
        .ok st ∧
      (st.userData.activeUsers.lookup 1).map (·.amountWon.toInt) =
        some (-2 ^ 63) := by
  refine ⟨fun h => ?_, fun h => ?_, by rfl, _, rfl, by rfl⟩
  · have hdeal := meets_iff.mp h (twoDeals.take 2) _ ⟨[], rfl⟩ _ rfl
    exact Bool.noConfusion (show true = false from hdeal)
  · have hdeals := meets_iff.mp h (twoMinutes.take 4) _ ⟨[], rfl⟩ _ rfl
    obtain ⟨hdeal, -⟩ := hdeals _ rfl
    have hfits := hdeal _ rfl
    exact Bool.noConfusion (show true = false from hfits)

end RatingService
