import RatingService.Service.MessageDispatcher
import RatingService.Service.Recalculation
import Mathlib.Data.Int.Interval

/-!
# How many users the rating can hold

The merge computes the new size of the rating vector as an `int`. A sum that
does not fit wraps to a negative size, which throws, or, if every id there is
has a place, to zero.

- §1: a merge into an empty vector.
- §2: the size of the new rating.
- §3: exactly when a recalculation completes, for any number of users.
-/

namespace RatingService

open PatchMerge

variable {dm : DataModel} {n : ℕ}

/-! ## §1  An empty vector -/

section Empty

variable {size : ℤ} {st st' : MergeState dm} {p : RatingPatchEntry dm}

theorem ratingMoveBlock_empty {d d' : CoreRatingData dm}
    {pos length offset : ℤ} (hempty : d.rating = [])
    (h : d.ratingMoveBlock pos length offset = .ok d') : d'.rating = [] := by
  unfold CoreRatingData.ratingMoveBlock at h
  split at h
  · cases h
    exact hempty
  · rw [hempty, List.length_nil, Nat.cast_zero, assert_not (by omega)] at h
    cases h

theorem ratingInsert_empty {d d' : CoreRatingData dm} {pos : ℤ}
    {value : UserRef} (hempty : d.rating = []) :
    d.ratingInsert pos value ≠ .ok d' := by
  intro h
  rw [CoreRatingData.ratingInsert, hempty, List.length_nil, Nat.cast_zero,
    assert_not (by omega)] at h
  cases h

theorem mergePatch_empty (hempty : st.userData.rating = [])
    (h : mergePatch size st p = .ok st') :
    st'.userData.rating = [] ∧ p.changeType = .oldPosition := by
  unfold mergePatch at h
  dsimp only at h
  split at h
  · next hold =>
    obtain ⟨d, hd, h⟩ := bind_eq_ok.mp h
    cases h
    exact ⟨ratingMoveBlock_empty hempty hd, hold⟩
  · obtain ⟨d₁, hd₁, h⟩ := bind_eq_ok.mp h
    obtain ⟨d₂, hd₂, -⟩ := bind_eq_ok.mp h
    exact absurd hd₂ (ratingInsert_empty (ratingMoveBlock_empty hempty hd₁))

theorem foldlM_mergePatch_empty :
    ∀ (ps : List (RatingPatchEntry dm)) (st st' : MergeState dm),
      st.userData.rating = [] → ps.foldlM (mergePatch size) st = .ok st' →
      ∀ p ∈ ps, p.changeType = .oldPosition
  | [], _, _, _, _ => fun _ hp => absurd hp List.not_mem_nil
  | p :: ps, st, st', hempty, h => by
      rw [List.foldlM_cons] at h
      obtain ⟨st₁, hst₁, h⟩ := bind_eq_ok.mp h
      obtain ⟨hempty₁, hp⟩ := mergePatch_empty hempty hst₁
      intro q hq
      rcases List.mem_cons.mp hq with rfl | hq
      · exact hp
      · exact foldlM_mergePatch_empty ps st₁ st' hempty₁ h q hq

end Empty

/-! ## §2  The new size -/

theorem wrapInt_of_ge {i : ℤ} (hlow : 2 ^ 31 ≤ i) (hhigh : i ≤ 2 ^ 32) :
    wrapInt i = i - 2 ^ 32 := by
  rw [wrapInt, Int.bmod_def]
  split <;> omega

theorem card_ids_le (ids : Finset IdT) : ids.card ≤ 2 ^ 32 := by
  have hsub : ids.image Int32.toInt ⊆ Finset.Ico (-2 ^ 31) (2 ^ 31) := by
    intro i hi
    obtain ⟨id, -, rfl⟩ := Finset.mem_image.mp hi
    exact Finset.mem_Ico.mpr ⟨Int32.le_toInt id, Int32.toInt_lt id⟩
  calc ids.card = (ids.image Int32.toInt).card :=
        (Finset.card_image_of_injective _ fun _ _ => Int32.toInt_inj.mp).symm
    _ ≤ (Finset.Ico (-2 ^ 31 : ℤ) (2 ^ 31)).card := Finset.card_le_card hsub
    _ = 2 ^ 32 := by rw [Int.card_Ico]; rfl

namespace RatingCalculatorImpl

variable {s s' s₁ : RatingCalculatorImpl dm n} {dropOldRating : Bool}

/-- **The size of the new rating** is an `int` if the merge completes. -/
theorem merge_size {f : ℕ} (hf : s.freshRatings = f)
    (hold : s.userData.rating.length < 2 ^ 31)
    (hids : s.userData.rating.length + f ≤ 2 ^ 32)
    (hfresh : 0 < f → ∃ p ∈ s.ratingPatches, p.changeType = .newPosition)
    (h : s.merge = .ok s') : s.userData.rating.length + f < 2 ^ 31 := by
  by_contra hlarge
  have hint : toInt s.userData.rating.length = s.userData.rating.length :=
    toInt_of_lt hold
  have hwrap : wrapInt ((s.userData.rating.length : ℤ) + f) =
      s.userData.rating.length + f - 2 ^ 32 :=
    wrapInt_of_ge (by omega) (by omega)
  unfold merge at h
  dsimp only at h
  rw [hint, hf] at h
  rcases Nat.lt_or_ge (s.userData.rating.length + f) (2 ^ 32) with hlt | hge
  · -- a negative size
    rw [hwrap, if_pos (by omega)] at h
    cases h
  · -- no place for anybody
    have hzero : ((s.userData.rating.length : ℤ) + f - 2 ^ 32).toNat = 0 := by
      omega
    rw [hwrap, if_neg (by omega), hzero, List.take_zero, Nat.zero_sub] at h
    obtain ⟨st, hst, -⟩ := bind_eq_ok.mp h
    obtain ⟨p, hp, hnew⟩ := hfresh (by omega)
    have hremoval := foldlM_mergePatch_empty _ _ _ rfl hst p hp
    rw [hnew] at hremoval
    cases hremoval

theorem DealsInv.exists_insertion {s₀ : RatingCalculatorImpl dm n}
    {done : List (IdT × MonetaryT dm)} (h : DealsInv s₀ done s)
    (hpos : 0 < done.countP fun e => (s₀.userState e.1).isSilent) :
    ∃ p ∈ s.ratingPatches, p.changeType = .newPosition := by
  have hinserts := h.inserts_eq
  rw [countP_isRegistered] at hinserts
  have hsome : 0 < inserts (s.ratingPatches.map RatingPatchEntry.toPatch) := by
    omega
  obtain ⟨q, hq, hinsert⟩ := List.countP_pos_iff.mp hsome
  obtain ⟨p, hp, rfl⟩ := List.mem_map.mp hq
  refine ⟨p, hp, ?_⟩
  unfold RatingPatchEntry.toPatch at hinsert
  split at hinsert
  · cases hinsert
  · next hnew => exact hnew

/-! ## §3  The recalculation -/

/-- What a calculator may take for granted when it starts on a batch, however
many users there are. -/
structure Sized (s : RatingCalculatorImpl dm n) : Prop where
  integrity : s.userData.RatingIntegrity
  disjoint : s.userData.Disjoint
  seconds : s.incomingBuffer.SecondsOk
  noPatches : s.ratingPatches = []
  noFresh : s.freshRatings = 0
  size : s.userData.rating.length < 2 ^ 31

theorem length_rating {d : CoreRatingData dm} (hint : d.RatingIntegrity) :
    d.rating.length = d.activeUsers.keys.length := by
  rw [← List.length_map UserRef.owner]
  refine List.Perm.length_eq ((List.perm_ext_iff_of_nodup hint.nodup_owners
    d.activeUsers.keys_nodup).mpr fun id => ?_)
  rw [hint.mem_owners, CoreRatingData.isActive_iff, AList.mem_keys]

theorem BeforeDeals.size_eq (h : s.BeforeDeals dropOldRating s₁)
    (hint : s.userData.RatingIntegrity) :
    s₁.userData.rating.length +
      (s₁.incomingBuffer.dealsWon.toList.countP fun e =>
        (s₁.userState e.1).isSilent) = (s.activeThen dropOldRating).length := by
  rw [activeThen, List.length_append, h.rating, h.incomingBuffer]
  congr 1
  · split
    · rfl
    · exact length_rating hint
  · rw [← List.countP_eq_length_filter,
      ← Std.TreeMap.map_fst_toList_eq_keys, List.countP_map]
    exact List.countP_congr fun e _ => by rw [h.userState]; rfl

/-- **Exactly when a recalculation completes**, however many users there are:
it does if nobody without a deal would move up and an `int` can count the
users who are active then. -/
theorem recalculate_exact (hsized : s.Sized) (dropOldRating : Bool) :
    (NobodyMovesUp (s.oldRated dropOldRating) (s.batchState dropOldRating)
        s.incomingBuffer.dealsWon.toList ∧
      (s.activeThen dropOldRating).length < 2 ^ 31 ∧
      ∃ s', s.recalculate dropOldRating = .ok s' ∧
        Reranked (s.oldRated dropOldRating) (s.batchState dropOldRating)
          s.incomingBuffer.dealsWon s'.userData) ∨
    (¬ (NobodyMovesUp (s.oldRated dropOldRating) (s.batchState dropOldRating)
          s.incomingBuffer.dealsWon.toList ∧
        (s.activeThen dropOldRating).length < 2 ^ 31) ∧
      ∃ e, s.recalculate dropOldRating = .error e) := by
  obtain ⟨s₁, hs₁, h⟩ :=
    beforeDeals_spec dropOldRating hsized.disjoint hsized.seconds
  have hint := h.integrity hsized.integrity
  have hpatches := h.ratingPatches.trans hsized.noPatches
  have hfresh := h.freshRatings.trans hsized.noFresh
  have hsize := h.size_eq hsized.integrity
  have hstate : s₁.userState = s.batchState dropOldRating := funext h.userState
  have hrecalculate : s.recalculate dropOldRating =
      s₁.processDeals >>= merge := by
    rw [recalculate, prepare_eq, hs₁]
    rfl
  rw [hrecalculate]
  rcases Nat.lt_or_ge (s.activeThen dropOldRating).length (2 ^ 31) with
    hfew | hmany
  · have hspec := deals_merge_spec hint h.disjoint hpatches hfresh
      (by rw [hsize]; exact hfew)
    rw [h.incomingBuffer, h.rated_eq, hstate] at hspec
    rcases hspec with ⟨hup, hs'⟩ | ⟨hup, hs'⟩
    · exact Or.inl ⟨hup, hfew, hs'⟩
    · exact Or.inr ⟨fun hboth => hup hboth.1, _, hs'⟩
  · refine Or.inr ⟨fun hboth => absurd hboth.2 (not_lt.mpr hmany), ?_⟩
    cases hs' : s₁.processDeals >>= merge with
    | error e => exact ⟨e, rfl⟩
    | ok s' =>
        -- the deals of so many users are prepared, but not merged
        have hold : s₁.userData.rating.length < 2 ^ 31 := by
          rw [h.rating]
          split
          · exact Nat.two_pow_pos 31
          · exact hsized.size
        have hids := (h.size_le hsized.integrity).trans (card_ids_le _)
        obtain ⟨s₂, hs₂, hinv⟩ :=
          processDeals_spec hint hold h.disjoint hpatches hfresh
        rw [hs₂, ok_bind] at hs'
        have hlt := merge_size hinv.fresh (by rw [hinv.rating]; exact hold)
          (by rw [hinv.rating]; exact hids) hinv.exists_insertion hs'
        rw [hinv.rating, hsize] at hlt
        exact absurd hlt (not_lt.mpr hmany)

/-- A recalculation that completes leaves the users reranked, with a rating an
`int` can count. -/
theorem recalculate_reranked (hsized : s.Sized)
    (h : s.recalculate dropOldRating = .ok s') :
    Reranked (s.oldRated dropOldRating) (s.batchState dropOldRating)
        s.incomingBuffer.dealsWon s'.userData ∧
      s'.userData.rating.length < 2 ^ 31 := by
  rcases recalculate_exact hsized dropOldRating with
    ⟨-, hfew, s₁, hs₁, hranked⟩ | ⟨-, e, he⟩
  · obtain rfl : s₁ = s' := Except.ok.inj (hs₁.symm.trans h)
    refine ⟨hranked, ?_⟩
    rw [← List.length_map UserRef.owner, hranked.eq_sortedRating, sortedRating,
      List.length_insertionSort]
    exact hfew
  · exact absurd (h.symm.trans he) (by simp)

end RatingCalculatorImpl

end RatingService
