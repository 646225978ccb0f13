import RatingService.Service.RatingIntegrity
import Mathlib.Data.Finset.Card

/-!
# One recalculation

`RatingCalculatorImpl::recalculate` on a whole batch: exactly when it
completes, and what it makes of the rating then.

- §1: the batch up to its deals, seen by the rating.
- §2: the recalculation.
- §3: positive deals move nobody up.
- §4: the rating is the list of the users who are active then, sorted.
-/

namespace RatingService

variable {dm : DataModel} {n : ℕ}

namespace RatingCalculatorImpl

/-! ## §1  The batch up to its deals -/

def create (userData : CoreRatingData dm) (iterationData : IterationData)
    (incomingBuffer : IncomingDataBuffer dm) (jobQueue : JobQueue n) :
    RatingCalculatorImpl dm n :=
  { userData, iterationData, incomingBuffer, jobQueue }

def oldRated (s : RatingCalculatorImpl dm n) (dropOldRating : Bool)
    (id : IdT) : Option (RatedData dm) :=
  if dropOldRating then none else s.userData.rated id

/-- The users the tables hold once the batch's registrations are in. -/
def knownUsers (s : RatingCalculatorImpl dm n) : Finset IdT :=
  s.userData.silentUsers.keys.toFinset ∪
    s.userData.activeUsers.keys.toFinset ∪
    s.incomingBuffer.usersRegistered.keys.toFinset

/-- What a calculator may take for granted when it starts on a batch. -/
structure Ready (s : RatingCalculatorImpl dm n) : Prop where
  integrity : s.userData.RatingIntegrity
  disjoint : s.userData.Disjoint
  seconds : ∀ (id : IdT) (second : ConnectTimeT),
    s.incomingBuffer.connectionChanges[id]? = some second →
      second < 60 ∨ second = invalidSecond
  noPatches : s.ratingPatches = []
  noFresh : s.freshRatings = 0
  fewUsers : s.knownUsers.card < 2 ^ 31

end RatingCalculatorImpl

/-- The integrity of the rating rests on the rating and on what the records
say about it. -/
theorem CoreRatingData.RatingIntegrity.congr {d d' : CoreRatingData dm}
    (h : d.RatingIntegrity) (hrating : d'.rating = d.rating)
    (hrated : ∀ id, d'.rated id = d.rated id) : d'.RatingIntegrity := by
  have hwinnings : ∀ id, d'.winnings id = d.winnings id := fun id => by
    rw [CoreRatingData.winnings, hrated, CoreRatingData.winnings]
  constructor
  · intro p
    rw [hrating, h.listed, CoreRatingData.live_iff_rated,
      CoreRatingData.live_iff_rated, hrated]
  · rw [hrating]
    exact h.nodup
  · intro i p hp
    rw [hrated]
    exact h.ranked i p (hrating ▸ hp)
  · rw [hrating]
    simp only [hwinnings]
    exact h.sorted

theorem CoreRatingData.ratingIntegrity_nil {d : CoreRatingData dm}
    (hrating : d.rating = []) (hrated : ∀ id, d.rated id = none) :
    d.RatingIntegrity := by
  constructor
  · intro p
    rw [hrating, CoreRatingData.live_iff_rated, hrated]
    simp
  · rw [hrating]
    exact List.nodup_nil
  · intro i p hp
    rw [hrating] at hp
    cases hp
  · rw [hrating]
    exact List.Pairwise.nil

namespace RatingCalculatorImpl

variable {s s₁ : RatingCalculatorImpl dm n} {dropOldRating : Bool}

theorem BeforeDeals.integrity (h : s.BeforeDeals dropOldRating s₁)
    (hint : s.userData.RatingIntegrity) : s₁.userData.RatingIntegrity := by
  have hrating := h.rating
  have hrated := h.rated
  cases dropOldRating with
  | true => exact CoreRatingData.ratingIntegrity_nil hrating hrated
  | false => exact hint.congr hrating hrated

theorem BeforeDeals.rated_eq (h : s.BeforeDeals dropOldRating s₁) :
    s₁.userData.rated = s.oldRated dropOldRating := by
  funext id
  rw [h.rated, oldRated]

theorem mem_knownUsers (dropOldRating : Bool) {id : IdT}
    (h : (s.batchState dropOldRating id).isRegistered) :
    id ∈ s.knownUsers := by
  rw [isRegistered_batchState, Bool.or_eq_true] at h
  simp only [knownUsers, Finset.mem_union, List.mem_toFinset]
  rcases h with h | h
  · left
    unfold userState CoreRatingData.userState at h
    split at h
    · rename_i u hu
      exact Or.inr (AList.mem_keys.mp (AList.lookup_isSome.mp (by rw [hu]; rfl)))
    · split at h
      · rename_i u hu
        exact Or.inl (AList.mem_keys.mp (AList.lookup_isSome.mp (by rw [hu]; rfl)))
      · cases h
  · right
    rw [Std.TreeMap.mem_keys]
    simpa using h

theorem BeforeDeals.size_le (h : s.BeforeDeals dropOldRating s₁)
    (hint : s.userData.RatingIntegrity) :
    s₁.userData.rating.length +
      (s₁.incomingBuffer.dealsWon.toList.countP fun e =>
        (s₁.userState e.1).isSilent) ≤ s.knownUsers.card := by
  have hint₁ := h.integrity hint
  -- the two kinds of users, one list
  have hnodup : (s₁.userData.rating.map UserRef.owner ++
      (s₁.incomingBuffer.dealsWon.toList.filter fun e =>
        (s₁.userState e.1).isSilent).map Prod.fst).Nodup := by
    refine List.nodup_append'.mpr ⟨hint₁.nodup_owners,
      (nodup_toList_keys _).sublist (List.filter_sublist.map _), ?_⟩
    intro id hid hsilent
    obtain ⟨p, hp, rfl⟩ := List.mem_map.mp hid
    obtain ⟨e, he, hep⟩ := List.mem_map.mp hsilent
    obtain ⟨u, hu, -⟩ := (hint₁.listed p).mp hp
    have hst := (List.mem_filter.mp he).2
    rw [hep, RatingCalculatorImpl.userState, CoreRatingData.userState_active hu] at hst
    cases hst
  have hsub : (s₁.userData.rating.map UserRef.owner ++
      (s₁.incomingBuffer.dealsWon.toList.filter fun e =>
        (s₁.userState e.1).isSilent).map Prod.fst).toFinset ⊆
      s.knownUsers := by
    intro id hid
    refine mem_knownUsers dropOldRating ?_
    rw [← h.userState]
    rcases List.mem_append.mp (List.mem_toFinset.mp hid) with hid | hid
    · obtain ⟨p, hp, rfl⟩ := List.mem_map.mp hid
      obtain ⟨u, hu, -⟩ := (hint₁.listed p).mp hp
      rw [RatingCalculatorImpl.userState, CoreRatingData.userState_active hu]
      rfl
    · obtain ⟨e, he, rfl⟩ := List.mem_map.mp hid
      have hst := (List.mem_filter.mp he).2
      rw [UserState.isRegistered_eq, hst, Bool.or_true]
  have hcard := Finset.card_le_card hsub
  rw [List.toFinset_card_of_nodup hnodup] at hcard
  simpa [List.countP_eq_length_filter] using hcard

/-! ## §2  The recalculation -/

/-- **Exactly when a recalculation completes**: it does if nobody without a
deal would move up, and then leaves the users reranked; otherwise it fails in
the assertion of the block move. -/
theorem recalculate_spec (hready : s.Ready) (dropOldRating : Bool) :
    (NobodyMovesUp (s.oldRated dropOldRating) (s.batchState dropOldRating)
        s.incomingBuffer.dealsWon.toList ∧
      ∃ s', s.recalculate dropOldRating = .ok s' ∧
        Reranked (s.oldRated dropOldRating) (s.batchState dropOldRating)
          s.incomingBuffer.dealsWon s'.userData) ∨
    (¬ NobodyMovesUp (s.oldRated dropOldRating) (s.batchState dropOldRating)
        s.incomingBuffer.dealsWon.toList ∧
      s.recalculate dropOldRating = .error .assertion) := by
  obtain ⟨s₁, hs₁, h⟩ :=
    beforeDeals_spec dropOldRating hready.disjoint hready.seconds
  have hrecalculate : s.recalculate dropOldRating =
      s₁.processDeals >>= merge := by
    rw [recalculate, prepare_eq, hs₁]
    rfl
  have hspec := deals_merge_spec (h.integrity hready.integrity) h.disjoint
    (h.ratingPatches.trans hready.noPatches)
    (h.freshRatings.trans hready.noFresh)
    (lt_of_le_of_lt (h.size_le hready.integrity) hready.fewUsers)
  have hstate : s₁.userState = s.batchState dropOldRating := funext h.userState
  rw [h.incomingBuffer, h.rated_eq, hstate] at hspec
  rw [hrecalculate]
  exact hspec

/-- Nothing behind the first four stages touches the buffer but the clearing
of the deals. -/
theorem processDeal_incomingBuffer {e : IdT × MonetaryT dm}
    {s' : RatingCalculatorImpl dm n} (h : s.processDeal e = .ok s') :
    s'.incomingBuffer = s.incomingBuffer := by
  unfold processDeal at h
  split at h
  · obtain ⟨k, -, hk⟩ := bind_eq_ok.mp h
    cases hk
    rfl
  · split at h
    · obtain ⟨k, -, hk⟩ := bind_eq_ok.mp h
      cases hk
      rfl
    · cases h
      rfl

theorem merge_ok {s' : RatingCalculatorImpl dm n} (h : s.merge = .ok s') :
    ∃ d', s' = { s with userData := d' } := by
  unfold merge at h
  simp only at h
  split at h
  · cases h
  · obtain ⟨st, -, hst⟩ := bind_eq_ok.mp h
    obtain ⟨d', -, hd'⟩ := bind_eq_ok.mp hst
    cases hd'
    exact ⟨d', rfl⟩

/-- **A recalculation that completes leaves its buffer empty.** -/
theorem recalculate_incomingBuffer (hdisj : s.userData.Disjoint)
    (hsec : ∀ (id : IdT) (second : ConnectTimeT),
      s.incomingBuffer.connectionChanges[id]? = some second →
        second < 60 ∨ second = invalidSecond)
    {s' : RatingCalculatorImpl dm n}
    (h : s.recalculate dropOldRating = .ok s') : s'.incomingBuffer = {} := by
  obtain ⟨s₁, hs₁, hbefore⟩ := beforeDeals_spec dropOldRating hdisj hsec
  rw [recalculate, prepare_eq, hs₁, ok_bind] at h
  obtain ⟨s₂, hs₂, hmerge⟩ := bind_eq_ok.mp h
  obtain ⟨d', rfl⟩ := merge_ok hmerge
  obtain ⟨s₃, hs₃, hclear⟩ := bind_eq_ok.mp hs₂
  have hbuffer := KeyedFold.foldlM_invariant
    (fun s' => s'.incomingBuffer = s₁.incomingBuffer)
    (fun s e s' hs hstep => (processDeal_incomingBuffer hstep).trans hs)
    _ _ _ rfl hs₃
  cases hclear
  show { s₃.incomingBuffer with dealsWon := ∅ } = _
  rw [hbuffer, hbefore.incomingBuffer]

/-! ## §3  Positive deals -/

theorem countP_or_le {α : Type*} (p q : α → Bool) (l : List α) :
    (l.countP fun x => p x || q x) ≤ l.countP p + l.countP q := by
  induction l with
  | nil => exact Nat.le_refl 0
  | cons x l ih =>
      simp only [List.countP_cons]
      cases p x <;> cases q x <;> simp <;> omega

theorem rank_lt_of_amount_lt {d : CoreRatingData dm}
    (hint : d.RatingIntegrity) {id id' : IdT} {r r' : RatedData dm}
    (hr : d.rated id = some r) (hr' : d.rated id' = some r')
    (hlt : r'.amountWon.toInt < r.amountWon.toInt) : r.rank < r'.rank := by
  obtain ⟨hnonneg, hstands⟩ := hint.stands hr
  obtain ⟨hnonneg', hstands'⟩ := hint.stands hr'
  obtain ⟨hi, hp⟩ := List.getElem?_eq_some_iff.mp hstands
  obtain ⟨hi', hp'⟩ := List.getElem?_eq_some_iff.mp hstands'
  by_contra hnot
  rcases Nat.lt_or_ge r'.rank.toNat r.rank.toNat with hbefore | hafter
  · have hsorted := List.pairwise_iff_getElem.mp hint.sorted _ _ hi' hi hbefore
    rw [hp, hp', CoreRatingData.winnings, CoreRatingData.winnings, hr, hr']
      at hsorted
    exact absurd hlt (not_lt.mpr hsorted)
  · -- one position, one user
    rw [show r'.rank.toNat = r.rank.toNat by omega, hstands] at hstands'
    have howner : id = id' := congrArg UserRef.owner (Option.some_inj.mp hstands')
    rw [howner, hr'] at hr
    rw [Option.some_inj.mp hr] at hlt
    exact lt_irrefl _ hlt

/-- **Positive deals move nobody up**: who ends up at or below a user's
winnings had fewer before, or none. -/
theorem nobodyMovesUp_of_pos (hint : s.userData.RatingIntegrity)
    {deals : List (IdT × MonetaryT dm)} (hpos : ∀ e ∈ deals, 0 < e.2.toInt)
    (hsum : ∀ e ∈ deals, ∀ r, s.userData.rated e.1 = some r →
      (r.amountWon + e.2).toInt = r.amountWon.toInt + e.2.toInt) :
    NobodyMovesUp s.userData.rated s.userState deals := by
  intro id r hr _
  refine le_trans ?_ (countP_or_le _ _ _)
  refine List.countP_mono_left fun e he hcount => ?_
  rw [Bool.and_eq_true, decide_eq_true_eq] at hcount
  obtain ⟨hreg, hle⟩ := hcount
  rw [Bool.or_eq_true]
  cases hst : s.userState e.1 with
  | unregistered =>
      rw [hst] at hreg
      cases hreg
  | silent u => exact Or.inl rfl
  | active u =>
      right
      have hr' := CoreRatingData.rated_of_active hst
      rw [oldWinnings, hr', Option.map_some, Option.getD_some,
        hsum e he _ hr'] at hle
      rw [hr', Option.any_some, decide_eq_true_eq]
      have := hpos e he
      exact rank_lt_of_amount_lt hint hr hr' (by omega)

theorem nobodyMovesUp_batch (hint : s.userData.RatingIntegrity)
    (hdisj : s.userData.Disjoint)
    (hsec : ∀ (id : IdT) (second : ConnectTimeT),
      s.incomingBuffer.connectionChanges[id]? = some second →
        second < 60 ∨ second = invalidSecond)
    (dropOldRating : Bool)
    (hpos : ∀ (id : IdT) (a : MonetaryT dm),
      s.incomingBuffer.dealsWon[id]? = some a → 0 < a.toInt)
    (hsum : ∀ (id : IdT) (a : MonetaryT dm) r,
      s.incomingBuffer.dealsWon[id]? = some a →
      s.oldRated dropOldRating id = some r →
      (r.amountWon + a).toInt = r.amountWon.toInt + a.toInt) :
    NobodyMovesUp (s.oldRated dropOldRating) (s.batchState dropOldRating)
      s.incomingBuffer.dealsWon.toList := by
  obtain ⟨s₁, -, h⟩ := beforeDeals_spec dropOldRating hdisj hsec
  have hup : NobodyMovesUp s₁.userData.rated s₁.userState
      s.incomingBuffer.dealsWon.toList :=
    nobodyMovesUp_of_pos (h.integrity hint)
      (fun e he => hpos e.1 e.2 (getElem?_of_mem_toList he))
      (fun e he r hr => hsum e.1 e.2 r (getElem?_of_mem_toList he)
        (by rw [← h.rated_eq]; exact hr))
  have hstate : s₁.userState = s.batchState dropOldRating := funext h.userState
  rw [h.rated_eq, hstate] at hup
  exact hup

/-- A batch of positive deals is worked in without a failure. -/
theorem recalculate_of_pos (hready : s.Ready) (dropOldRating : Bool)
    (hpos : ∀ (id : IdT) (a : MonetaryT dm),
      s.incomingBuffer.dealsWon[id]? = some a → 0 < a.toInt)
    (hsum : ∀ (id : IdT) (a : MonetaryT dm) r,
      s.incomingBuffer.dealsWon[id]? = some a →
      s.oldRated dropOldRating id = some r →
      (r.amountWon + a).toInt = r.amountWon.toInt + a.toInt) :
    ∃ s', s.recalculate dropOldRating = .ok s' ∧
      Reranked (s.oldRated dropOldRating) (s.batchState dropOldRating)
        s.incomingBuffer.dealsWon s'.userData := by
  have hup := nobodyMovesUp_batch hready.integrity hready.disjoint
    hready.seconds dropOldRating hpos hsum
  rcases recalculate_spec hready dropOldRating with ⟨-, hs'⟩ | ⟨hnot, -⟩
  · exact hs'
  · exact absurd hup hnot

/-- Nobody has won more than the limit set for him. -/
def Funded (d : CoreRatingData dm) (limit : IdT → ℤ) : Prop :=
  ∀ id r, d.rated id = some r → r.amountWon.toInt ≤ limit id

def dealt (deals : DealsMap dm) (id : IdT) : ℤ :=
  ((deals[id]?).getD 0).toInt

theorem toInt_add_of_lt {w : ℕ} {x y : BitVec (w + 1)} (hy : 0 ≤ y.toInt)
    (hlt : x.toInt + y.toInt < 2 ^ w) :
    (x + y).toInt = x.toInt + y.toInt := by
  have hx := BitVec.le_toInt x
  rw [Nat.add_sub_cancel] at hx
  have hpow : ((2 ^ (w + 1) : ℕ) : ℤ) = 2 ^ w * 2 := by
    rw [Nat.pow_succ]
    push_cast
    rfl
  rw [BitVec.toInt_add]
  refine Int.bmod_eq_of_le ?_ ?_ <;> omega

theorem toInt_winnings_add {x y : MonetaryT dm} (hy : 0 ≤ y.toInt)
    (hlt : x.toInt + y.toInt < 2 ^ (8 * dm.sizeofLong - 1)) :
    (x + y).toInt = x.toInt + y.toInt := by
  cases dm with
  | llp64 => exact toInt_add_of_lt (w := 31) hy hlt
  | lp64 => exact toInt_add_of_lt (w := 63) hy hlt

/-- A user's winnings stay within the limit and what the batch adds to it. -/
theorem toInt_newWinnings_le {old : IdT → Option (RatedData dm)}
    {deals : DealsMap dm} {id : IdT} {limit : ℤ} (hlimit : 0 ≤ limit)
    (hfunded : ∀ r, old id = some r → r.amountWon.toInt ≤ limit)
    (hsum : ∀ (a : MonetaryT dm) r, deals[id]? = some a → old id = some r →
      (r.amountWon + a).toInt = r.amountWon.toInt + a.toInt) :
    (newWinnings old deals id).toInt ≤ limit + dealt deals id := by
  rw [newWinnings, oldWinnings, dealt]
  cases ha : deals[id]? with
  | none =>
      rw [Option.getD_none]
      show (_ + 0#(8 * dm.sizeofLong)).toInt ≤
        limit + (0#(8 * dm.sizeofLong)).toInt
      rw [BitVec.add_zero, BitVec.toInt_zero, add_zero]
      cases ho : old id with
      | none => simpa using hlimit
      | some o => exact hfunded o ho
  | some a =>
      rw [Option.getD_some]
      cases ho : old id with
      | none =>
          rw [Option.map_none, Option.getD_none]
          show (0#(8 * dm.sizeofLong) + a).toInt ≤ limit + a.toInt
          rw [BitVec.zero_add]
          omega
      | some o =>
          have hle := hfunded o ho
          rw [Option.map_some, Option.getD_some, hsum a o ha ho]
          omega

/-- **Positive deals below the type's limit** are worked in without a
failure, and each winner's limit goes up by his deals. -/
theorem recalculate_of_funded (hready : s.Ready) (dropOldRating : Bool)
    {limit : IdT → ℤ} (hlimit : ∀ id, 0 ≤ limit id)
    (hfunded : ∀ id r, s.oldRated dropOldRating id = some r →
      r.amountWon.toInt ≤ limit id)
    (hpos : ∀ (id : IdT) (a : MonetaryT dm),
      s.incomingBuffer.dealsWon[id]? = some a → 0 < a.toInt)
    (hmax : ∀ id, limit id + dealt s.incomingBuffer.dealsWon id <
      2 ^ (8 * dm.sizeofLong - 1)) :
    ∃ s', s.recalculate dropOldRating = .ok s' ∧
      Reranked (s.oldRated dropOldRating) (s.batchState dropOldRating)
        s.incomingBuffer.dealsWon s'.userData ∧
      Funded s'.userData fun id =>
        limit id + dealt s.incomingBuffer.dealsWon id := by
  have hsum : ∀ id, ∀ (a : MonetaryT dm) r,
      s.incomingBuffer.dealsWon[id]? = some a →
      s.oldRated dropOldRating id = some r →
      (r.amountWon + a).toInt = r.amountWon.toInt + a.toInt := by
    intro id a r ha hr
    have hle := hfunded id r hr
    have hlt := hmax id
    rw [dealt, ha, Option.getD_some] at hlt
    exact toInt_winnings_add (le_of_lt (hpos id a ha)) (by omega)
  obtain ⟨s', hs', h⟩ := recalculate_of_pos hready dropOldRating hpos hsum
  refine ⟨s', hs', h, ?_⟩
  intro id r hr
  obtain ⟨u, hu, rfl⟩ := Option.map_eq_some_iff.mp hr
  have hactive : (s'.userData.userState id).isActive := by
    rw [CoreRatingData.userState_active hu]
    rfl
  have hwon := h.winnings id hactive
  rw [CoreRatingData.winnings_of_active hu] at hwon
  show u.amountWon.toInt ≤ limit id + dealt s.incomingBuffer.dealsWon id
  rw [hwon]
  exact toInt_newWinnings_le (hlimit id) (hfunded id)
    fun a r ha hr => hsum id a r ha hr

/-! ## §4  The sorted list of the users active then -/

/-- The users who are active after the batch: those with rating, and the
silent users with a deal. -/
def activeThen (s : RatingCalculatorImpl dm n) (dropOldRating : Bool) :
    List IdT :=
  (if dropOldRating then [] else s.userData.activeUsers.keys) ++
    s.incomingBuffer.dealsWon.keys.filter fun id =>
      (s.batchState dropOldRating id).isSilent

/-- **What the rating should be**: these users, sorted. -/
def sortedRating (s : RatingCalculatorImpl dm n) (dropOldRating : Bool) :
    List IdT :=
  (s.activeThen dropOldRating).insertionSort fun id id' =>
    rankKey (s.oldRated dropOldRating) s.incomingBuffer.dealsWon id ≤
      rankKey (s.oldRated dropOldRating) s.incomingBuffer.dealsWon id'

theorem mem_activeThen {id : IdT} :
    id ∈ s.activeThen dropOldRating ↔
      ((s.batchState dropOldRating id).isActive ||
        ((s.batchState dropOldRating id).isSilent &&
          (s.incomingBuffer.dealsWon[id]?).isSome)) := by
  have hkeys : id ∈ (if dropOldRating then [] else
      s.userData.activeUsers.keys) ↔
        (s.batchState dropOldRating id).isActive := by
    rw [isActive_batchState]
    cases dropOldRating with
    | true => simp
    | false =>
        rw [if_neg (by decide), ← AList.mem_keys,
          ← CoreRatingData.isActive_iff]
        rfl
  rw [activeThen, List.mem_append, hkeys, List.mem_filter,
    Std.TreeMap.mem_keys, Bool.or_eq_true, Bool.and_eq_true]
  simp [and_comm]

theorem nodup_activeThen : (s.activeThen dropOldRating).Nodup := by
  refine List.nodup_append'.mpr ⟨?_, ?_, ?_⟩
  · split
    · exact List.nodup_nil
    · exact s.userData.activeUsers.keys_nodup
  · exact Std.TreeMap.nodup_keys.sublist List.filter_sublist
  · intro id hid hsilent
    have hst := (List.mem_filter.mp hsilent).2
    cases dropOldRating with
    | true => cases hid
    | false =>
        rw [if_neg (by decide), ← AList.mem_keys, ← AList.lookup_isSome] at hid
        obtain ⟨u, hu⟩ := Option.isSome_iff_exists.mp hid
        have hactive := isActive_batchState s false id
        rw [userState, CoreRatingData.userState_active hu] at hactive
        revert hst hactive
        cases s.batchState false id <;>
          simp [UserState.isActive, UserState.isSilent]

/-- A reranked rating is the sorted list of the users active then. -/
theorem Reranked.eq_sortedRating {d' : CoreRatingData dm}
    (h : Reranked (s.oldRated dropOldRating) (s.batchState dropOldRating)
      s.incomingBuffer.dealsWon d') :
    d'.rating.map UserRef.owner = s.sortedRating dropOldRating := by
  have hmem : ∀ id, id ∈ d'.rating.map UserRef.owner ↔
      id ∈ s.activeThen dropOldRating := by
    intro id
    rw [mem_activeThen, ← h.active, h.integrity.mem_owners]
  have hperm : (d'.rating.map UserRef.owner).Perm
      (s.sortedRating dropOldRating) :=
    ((List.perm_ext_iff_of_nodup h.integrity.nodup_owners
      nodup_activeThen).mpr hmem).trans (List.perm_insertionSort _ _).symm
  -- users of equal keys are one user
  have hinj := List.inj_on_of_nodup_map (f := rankKey (s.oldRated dropOldRating)
    s.incomingBuffer.dealsWon) (List.pairwise_map.mpr
      (h.order.imp fun hlt => ne_of_lt hlt))
  refine List.Perm.eq_of_pairwise (fun id id' hid hid' hle hge =>
    hinj hid (hperm.mem_iff.mpr hid') (le_antisymm hle hge))
    (h.order.imp le_of_lt) (List.pairwise_insertionSort _ _) hperm

/-- **The in-place merge equals the sorting specification.** -/
theorem recalculate_sorts (d : CoreRatingData dm) (it : IterationData)
    (b : IncomingDataBuffer dm) (q : JobQueue n) (dropOldRating : Bool)
    (hdisj : d.Disjoint) (hint : d.RatingIntegrity)
    (hsec : ∀ (id : IdT) (second : ConnectTimeT),
      b.connectionChanges[id]? = some second → second ≤ 60)
    (hpos : ∀ (id : IdT) (a : MonetaryT dm),
      b.dealsWon[id]? = some a → 0 < a.toInt)
    (hsum : ∀ (id : IdT) (a : MonetaryT dm) r, b.dealsWon[id]? = some a →
      (create d it b q).oldRated dropOldRating id = some r →
      (r.amountWon + a).toInt = r.amountWon.toInt + a.toInt)
    (hfew : (create d it b q).knownUsers.card < 2 ^ 31) :
    ∃ s', (create d it b q).recalculate dropOldRating = .ok s' ∧
      s'.userData.rating.map UserRef.owner =
        (create d it b q).sortedRating dropOldRating ∧
      s'.userData.RatingIntegrity ∧
      ∀ id, (s'.userState id).isActive → s'.userData.winnings id =
        newWinnings ((create d it b q).oldRated dropOldRating) b.dealsWon id := by
  have hready : (create d it b q).Ready := by
    refine ⟨hint, hdisj, fun id second h => ?_, rfl, rfl, hfew⟩
    have hle := hsec id second h
    exact UInt8.lt_or_eq_of_le hle
  obtain ⟨s', hs', h⟩ := recalculate_of_pos hready dropOldRating hpos hsum
  exact ⟨s', hs', h.eq_sortedRating, h.integrity, h.winnings⟩

def oneRated : CoreRatingData .lp64 :=
  { silentUsers := AList.singleton 2 {}
    activeUsers := AList.singleton 1
      { id := 1, amountWon := 30, rating := 0, serial := 1 }
    rating := [⟨1, 1⟩]
    nextSerial := 2 }

theorem lookup_oneRated {id : IdT} {u : FullUserData .lp64}
    (h : oneRated.activeUsers.lookup id = some u) :
    id = 1 ∧ u.serial = 1 := by
  have hmem := AList.mem_lookup_iff.mp h
  cases List.mem_singleton.mp hmem
  exact ⟨rfl, rfl⟩

theorem oneRated_disjoint : oneRated.Disjoint := by
  intro id u h
  rw [(lookup_oneRated h).1]
  rfl

theorem oneRated_integrity : oneRated.RatingIntegrity where
  listed := by
    intro p
    constructor
    · intro hp
      rw [List.mem_singleton.mp hp]
      exact ⟨_, rfl, rfl⟩
    · rintro ⟨u, hu, hs⟩
      obtain ⟨ho, hus⟩ := lookup_oneRated hu
      cases p
      cases ho
      cases hs.symm.trans hus
      exact List.mem_singleton.mpr rfl
  nodup := List.nodup_singleton _
  ranked := by
    intro i p hp
    cases i with
    | zero =>
        cases hp
        exact ⟨_, rfl, rfl, rfl⟩
    | succ i => cases hp
  sorted := List.pairwise_singleton _ _

/-- User 2 draws level with user 1 and is put behind him. -/
theorem recalculate_sorts_tie :
    ∃ s', (create oneRated {} { dealsWon := (∅ : DealsMap .lp64).insert 2 30 }
        (JobQueue.create (n := 2) (by decide))).recalculate false = .ok s' ∧
      s'.userData.rating.map UserRef.owner = [1, 2] := by
  obtain ⟨s', hs', hrating, -⟩ := recalculate_sorts oneRated {}
    { dealsWon := (∅ : DealsMap .lp64).insert 2 30 }
    (JobQueue.create (n := 2) (by decide)) false oneRated_disjoint
    oneRated_integrity (by simp) (by
      intro id a h
      rw [Std.TreeMap.getElem?_insert] at h
      split at h
      · cases h
        decide
      · simp at h) (by
      intro id a r h hr
      rw [Std.TreeMap.getElem?_insert] at h
      split at h
      · rename_i hid
        have hid := Std.LawfulEqOrd.eq_of_compare hid
        subst hid
        cases hr
      · simp at h) (by decide)
  exact ⟨s', hs', hrating.trans (by decide)⟩
end RatingCalculatorImpl

end RatingService
