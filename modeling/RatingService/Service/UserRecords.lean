import RatingService.Service.MessageDispatcher
import RatingService.Service.Recalculation

/-!
# The users' records

What a recalculation that completes makes of a user's record: his name, his
connection second and his place in one of the two tables. None of this rests
on the order of the rating, so nothing is asked of the deals, nor of the
number of users.

- §1: a user's basic data.
- §2: the deals.
- §3: the merge.
- §4: the recalculation.
- §5: the errors it reports.
-/

namespace RatingService

variable {dm : DataModel} {n : ℕ}

/-! ## §1  Basic data -/

def UserState.basic : UserState dm → Option BasicUserData
  | .unregistered => none
  | .silent u => some u
  | .active u => some u.toBasicUserData

theorem UserState.isRegistered_eq_isSome (st : UserState dm) :
    st.isRegistered = st.basic.isSome := by
  cases st <;> rfl

theorem UserState.isSilent_eq (st : UserState dm) :
    st.isSilent = (st.basic.isSome && !st.isActive) := by
  cases st <;> rfl

theorem UserState.Dealt.basic_eq {id : IdT} {amount : MonetaryT dm}
    {st st' : UserState dm} (h : st.Dealt id amount st') :
    st'.basic = st.basic := by
  cases h <;> rfl

/-- A record without its winnings and its position, which the merge sets. -/
def FullUserData.unranked (u : FullUserData dm) : FullUserData dm :=
  { u with amountWon := 0, rating := invalidRating }

namespace CoreRatingData

variable {d d' : CoreRatingData dm}

/-- The tables hold the same users, with the same records but for winnings and
positions. -/
structure SameRecords (d d' : CoreRatingData dm) : Prop where
  silentUsers : d'.silentUsers = d.silentUsers
  activeUsers : ∀ id, (d'.activeUsers.lookup id).map FullUserData.unranked =
    (d.activeUsers.lookup id).map FullUserData.unranked

theorem SameRecords.refl (d : CoreRatingData dm) : d.SameRecords d :=
  ⟨rfl, fun _ => rfl⟩

theorem SameRecords.trans {d₁ d₂ d₃ : CoreRatingData dm}
    (h₁ : d₁.SameRecords d₂) (h₂ : d₂.SameRecords d₃) : d₁.SameRecords d₃ :=
  ⟨h₂.silentUsers.trans h₁.silentUsers,
    fun id => (h₂.activeUsers id).trans (h₁.activeUsers id)⟩

theorem SameRecords.active (h : d.SameRecords d') {id : IdT}
    {u' : FullUserData dm} (hu' : d'.activeUsers.lookup id = some u') :
    ∃ u, d.activeUsers.lookup id = some u ∧ u'.unranked = u.unranked := by
  have heq := h.activeUsers id
  rw [hu', Option.map_some] at heq
  obtain ⟨u, hu, hsame⟩ := Option.map_eq_some_iff.mp heq.symm
  exact ⟨u, hu, hsame.symm⟩

theorem SameRecords.symm (h : d.SameRecords d') : d'.SameRecords d :=
  ⟨h.silentUsers.symm, fun id => (h.activeUsers id).symm⟩

theorem toBasicUserData_of_unranked {u u' : FullUserData dm}
    (h : u'.unranked = u.unranked) :
    u'.toBasicUserData = u.toBasicUserData := by
  have hsame := congrArg (fun v : FullUserData dm => v.toBasicUserData) h
  exact hsame

theorem id_of_unranked {u u' : FullUserData dm}
    (h : u'.unranked = u.unranked) : u'.id = u.id := by
  have hsame := congrArg (fun v : FullUserData dm => v.id) h
  exact hsame

theorem serial_of_unranked {u u' : FullUserData dm}
    (h : u'.unranked = u.unranked) : u'.serial = u.serial := by
  have hsame := congrArg (fun v : FullUserData dm => v.serial) h
  exact hsame

theorem SameRecords.disjoint (h : d.SameRecords d') (hdisj : d.Disjoint) :
    d'.Disjoint := by
  intro id u' hu'
  obtain ⟨u, hu, -⟩ := h.active hu'
  rw [h.silentUsers]
  exact hdisj id u hu

theorem SameRecords.basic (h : d.SameRecords d') (id : IdT) :
    (d'.userState id).basic = (d.userState id).basic := by
  have hactive := h.activeUsers id
  unfold userState
  rw [h.silentUsers]
  cases hu' : d'.activeUsers.lookup id with
  | some u' =>
      obtain ⟨u, hu, hsame⟩ := h.active hu'
      rw [hu]
      exact congrArg some (toBasicUserData_of_unranked hsame)
  | none =>
      rw [hu', Option.map_none] at hactive
      rw [Option.map_eq_none_iff.mp hactive.symm]

theorem SameRecords.isActive (h : d.SameRecords d') (id : IdT) :
    (d'.userState id).isActive = (d.userState id).isActive := by
  have hactive := h.activeUsers id
  unfold userState
  rw [h.silentUsers]
  cases hu' : d'.activeUsers.lookup id with
  | some u' =>
      obtain ⟨u, hu, -⟩ := h.active hu'
      rw [hu]
      rfl
  | none =>
      rw [hu', Option.map_none] at hactive
      rw [Option.map_eq_none_iff.mp hactive.symm]

end CoreRatingData

namespace RatingCalculatorImpl

variable {s s' : RatingCalculatorImpl dm n}

/-! ## §2  The deals -/

theorem processSilentDeal_of_ok {e : IdT × MonetaryT dm} {u : BasicUserData}
    (h : s.processSilentDeal e u = .ok s') :
    ∃ patches fresh, s' = { s with
      userData := { s.userData with
        silentUsers := s.userData.silentUsers.erase e.1
        activeUsers := s.userData.activeUsers.emplace e.1
          { u with id := e.1, amountWon := e.2, serial := s.userData.nextSerial }
        nextSerial := s.userData.nextSerial + 1 }
      iterationData := s.iterationData.enter u.secondConnected
        ⟨e.1, s.userData.nextSerial⟩
      ratingPatches := patches
      freshRatings := fresh } := by
  obtain ⟨after, -, hs'⟩ := bind_eq_ok.mp h
  cases hs'
  exact ⟨_, _, rfl⟩

theorem processActiveDeal_of_ok {e : IdT × MonetaryT dm} {u : FullUserData dm}
    (h : s.processActiveDeal e u = .ok s') :
    ∃ patches, s' = { s with ratingPatches := patches } := by
  obtain ⟨after, -, hs'⟩ := bind_eq_ok.mp h
  cases hs'
  exact ⟨_, rfl⟩

/-- **One deal** is the step of the one user it names. -/
theorem processDeal_of_ok {e : IdT × MonetaryT dm}
    (hdisj : s.userData.Disjoint) (h : s.processDeal e = .ok s') :
    s'.userData.Disjoint ∧
      (s.userState e.1).Dealt e.1 e.2 (s'.userState e.1) ∧
      ∀ k, k ≠ e.1 → s'.userState k = s.userState k := by
  unfold processDeal at h
  cases ha : s.userData.activeUsers.lookup e.1 with
  | some u =>
      rw [ha] at h
      obtain ⟨patches, rfl⟩ := processActiveDeal_of_ok h
      refine ⟨hdisj, ?_, fun _ _ => rfl⟩
      show (s.userState e.1).Dealt e.1 e.2 (s.userState e.1)
      rw [userState, CoreRatingData.userState_active ha]
      exact .active u
  | none =>
      rw [ha] at h
      cases hs : s.userData.silentUsers.lookup e.1 with
      | some u =>
          rw [hs] at h
          obtain ⟨patches, fresh, rfl⟩ := processSilentDeal_of_ok h
          have hnew := UnorderedMap.lookup_emplace_self s.userData.activeUsers
            e.1 { u with
              id := e.1, amountWon := e.2, serial := s.userData.nextSerial }
          rw [ha, Option.getD_none] at hnew
          refine ⟨?_, ?_, ?_⟩
          · intro id v hv
            by_cases hid : id = e.1
            · rw [hid]
              exact AList.lookup_erase _ _
            · exact (AList.lookup_erase_ne hid).trans (hdisj id v
                ((UnorderedMap.lookup_emplace_ne _ _ hid).symm.trans hv))
          · rw [userState, CoreRatingData.userState_silent ha hs, userState,
              CoreRatingData.userState_active hnew]
            exact .silent u _
          · intro k hk
            exact CoreRatingData.userState_congr
              (UnorderedMap.lookup_emplace_ne _ _ hk) (AList.lookup_erase_ne hk)
      | none =>
          rw [hs] at h
          cases h
          refine ⟨hdisj, ?_, fun _ _ => rfl⟩
          show (s.userState e.1).Dealt e.1 e.2 (s.userState e.1)
          rw [userState, CoreRatingData.userState_unregistered ha hs]
          exact .unregistered

/-- What `processDeals` makes of a user's state. -/
theorem processDeals_of_ok (hdisj : s.userData.Disjoint)
    (h : s.processDeals = .ok s') :
    s'.userData.Disjoint ∧ ∀ id,
      (s'.userState id).basic = (s.userState id).basic ∧
      (s'.userState id).isActive = ((s.userState id).isActive ||
        ((s.userState id).isSilent &&
          (s.incomingBuffer.dealsWon[id]?).isSome)) := by
  obtain ⟨s₁, hs₁, hs'⟩ := bind_eq_ok.mp h
  cases hs'
  obtain ⟨hdisj', hmem, hout⟩ := KeyedFold.foldlM_view_of_ok Prod.fst userState
    (fun e old new => old.Dealt e.1 e.2 new) (fun s => s.userData.Disjoint)
    (fun s e s' hinv hs => processDeal_of_ok hinv hs)
    s.incomingBuffer.dealsWon.toList s s₁ (nodup_toList_keys _) hdisj hs₁
  refine ⟨hdisj', fun id => ?_⟩
  show (s₁.userState id).basic = _ ∧ (s₁.userState id).isActive = _
  rcases getElem?_toList s.incomingBuffer.dealsWon id with
    ⟨hnone, hid⟩ | ⟨a, ha, hid⟩
  · rw [hnone, hout id hid]
    simp
  · have hdealt := hmem _ hid
    rw [ha, hdealt.basic_eq, hdealt.isActive, UserState.isRegistered_eq]
    simp

end RatingCalculatorImpl

/-! ## §3  The merge -/

namespace CoreRatingData

variable {d d' : CoreRatingData dm}

theorem SameRecords.modify {p : UserRef}
    {f : FullUserData dm → FullUserData dm}
    (h : d.modify p f = .ok d') (hf : ∀ u, (f u).unranked = u.unranked) :
    d.SameRecords d' := by
  obtain ⟨u, hu, hd'⟩ := bind_eq_ok.mp h
  cases hd'
  have hlookup : d.activeUsers.lookup p.owner = some u := by
    unfold load at hu
    split at hu
    · next v hv =>
      cases hu
      exact (deref_eq_some.mp hv).1
    · cases hu
  refine ⟨rfl, fun id => ?_⟩
  by_cases hid : id = p.owner
  · rw [hid, AList.lookup_insert, hlookup]
    exact congrArg some (hf u)
  · rw [AList.lookup_insert_ne hid]

theorem ratingMoveBlock_of_ok {pos length offset : ℤ}
    (h : d.ratingMoveBlock pos length offset = .ok d') : d.SameRecords d' := by
  unfold ratingMoveBlock at h
  split at h
  · cases h
    exact SameRecords.refl d
  · obtain ⟨-, -, h⟩ := bind_eq_ok.mp h
    split at h
    · cases h
      exact ⟨rfl, fun _ => rfl⟩
    · cases h

theorem ratingInsert_of_ok {pos : ℤ} {p : UserRef}
    (h : d.ratingInsert pos p = .ok d') : d.SameRecords d' := by
  obtain ⟨-, -, h⟩ := bind_eq_ok.mp h
  cases h
  exact ⟨rfl, fun _ => rfl⟩

theorem ratingRefreshPositions_of_ok (h : d.ratingRefreshPositions = .ok d') :
    d.SameRecords d' := by
  refine KeyedFold.foldlM_invariant (fun c => d.SameRecords c) ?_ _ _ _
    (SameRecords.refl d) h
  intro c e c' hinv hs
  exact hinv.trans (SameRecords.modify hs fun _ => rfl)

end CoreRatingData

theorem mergePatch_of_ok {size : ℤ} {st st' : MergeState dm}
    {p : RatingPatchEntry dm} (h : mergePatch size st p = .ok st') :
    st.userData.SameRecords st'.userData := by
  unfold mergePatch at h
  dsimp only at h
  split at h
  · obtain ⟨d, hd, h⟩ := bind_eq_ok.mp h
    cases h
    exact CoreRatingData.ratingMoveBlock_of_ok hd
  · obtain ⟨d₁, hd₁, h⟩ := bind_eq_ok.mp h
    obtain ⟨d₂, hd₂, h⟩ := bind_eq_ok.mp h
    obtain ⟨d₃, hd₃, h⟩ := bind_eq_ok.mp h
    cases h
    exact ((CoreRatingData.ratingMoveBlock_of_ok hd₁).trans
      (CoreRatingData.ratingInsert_of_ok hd₂)).trans
      (CoreRatingData.SameRecords.modify hd₃ fun _ => rfl)

namespace RatingCalculatorImpl

variable {s s' : RatingCalculatorImpl dm n}

/-- **The merge** leaves the records as they are, but for winnings and
positions. -/
theorem merge_of_ok (h : s.merge = .ok s') :
    s.userData.SameRecords s'.userData ∧
      s'.iterationData = s.iterationData ∧ s'.jobQueue = s.jobQueue := by
  unfold merge at h
  dsimp only at h
  split at h
  · cases h
  · obtain ⟨st, hst, h⟩ := bind_eq_ok.mp h
    obtain ⟨d', hd', h⟩ := bind_eq_ok.mp h
    cases h
    refine ⟨?_, rfl, rfl⟩
    have hresized : ∀ rating,
        s.userData.SameRecords { s.userData with rating } :=
      fun _ => ⟨rfl, fun _ => rfl⟩
    have hmerged := KeyedFold.foldlM_invariant
      (fun c : MergeState dm => s.userData.SameRecords c.userData)
      (fun _ _ _ hinv hs => hinv.trans (mergePatch_of_ok hs))
      _ _ _ (hresized _) hst
    exact hmerged.trans (CoreRatingData.ratingRefreshPositions_of_ok hd')

/-! ## §4  The recalculation -/

/-- **A user's record after a recalculation** that completes is the one the
batch makes of it, and he is active then if he was or a deal of his counts. -/
theorem recalculate_of_ok {dropOldRating : Bool}
    (hdisj : s.userData.Disjoint) (hsec : s.incomingBuffer.SecondsOk)
    (h : s.recalculate dropOldRating = .ok s') :
    s'.userData.Disjoint ∧ ∀ id,
      (s'.userState id).basic = (s.batchState dropOldRating id).basic ∧
      (s'.userState id).isActive =
        ((s.batchState dropOldRating id).isActive ||
          ((s.batchState dropOldRating id).isSilent &&
            (s.incomingBuffer.dealsWon[id]?).isSome)) := by
  obtain ⟨s₁, hs₁, hbefore⟩ := beforeDeals_spec dropOldRating hdisj hsec
  rw [recalculate, prepare_eq, hs₁, ok_bind] at h
  obtain ⟨s₂, hs₂, hmerge⟩ := bind_eq_ok.mp h
  obtain ⟨hdisj₂, hdeals⟩ := processDeals_of_ok hbefore.disjoint hs₂
  obtain ⟨hsame, -, -⟩ := merge_of_ok hmerge
  refine ⟨hsame.disjoint hdisj₂, fun id => ?_⟩
  obtain ⟨hbasic, hactive⟩ := hdeals id
  rw [hbefore.userState, hbefore.incomingBuffer] at hactive
  rw [hbefore.userState] at hbasic
  exact ⟨(hsame.basic id).trans hbasic, (hsame.isActive id).trans hactive⟩

/-! ## §5  The errors -/

section Errors

variable {β : Type} {f : JobQueue n → β}

/-! What an error about an unrecognized user leaves alone. -/

theorem jobQueue_processRename
    (hf : ∀ q id, f (q.enqueueErrorJob (.userUnrecognized id)) = f q)
    (e : IdT × BufferT) : f (s.processRename e).jobQueue = f s.jobQueue := by
  unfold processRename
  split
  · rfl
  · split
    · rfl
    · exact hf _ _

theorem jobQueue_processConnectionChange
    (hf : ∀ q id, f (q.enqueueErrorJob (.userUnrecognized id)) = f q)
    {e : IdT × ConnectTimeT} (hs : s.processConnectionChange e = .ok s') :
    f s'.jobQueue = f s.jobQueue := by
  unfold processConnectionChange at hs
  split at hs
  · dsimp only at hs
    split at hs
    · cases hs
      rfl
    · split at hs <;> cases hs
      · rfl
      · exact hf _ _
  · cases hs

theorem jobQueue_processDeal
    (hf : ∀ q id, f (q.enqueueErrorJob (.userUnrecognized id)) = f q)
    {e : IdT × MonetaryT dm} (hs : s.processDeal e = .ok s') :
    f s'.jobQueue = f s.jobQueue := by
  unfold processDeal at hs
  split at hs
  · obtain ⟨patches, rfl⟩ := processActiveDeal_of_ok hs
    rfl
  · split at hs
    · obtain ⟨patches, fresh, rfl⟩ := processSilentDeal_of_ok hs
      rfl
    · cases hs
      exact hf _ _

/-- **Behind its registrations** a recalculation enqueues errors about
unrecognized users and nothing else. -/
theorem jobQueue_processRegistrations
    (hf : ∀ q id, f (q.enqueueErrorJob (.userUnrecognized id)) = f q)
    {dropOldRating : Bool} (hs : s.recalculate dropOldRating = .ok s') :
    f s'.jobQueue = f (if dropOldRating then s.dropRating else
      s).processRegistrations.jobQueue := by
  obtain ⟨s₂, hs₂, hmerge⟩ := bind_eq_ok.mp hs
  obtain ⟨s₁, hs₁, hdeals⟩ := bind_eq_ok.mp hs₂
  generalize (if dropOldRating then s.dropRating else s) = s₀ at hs₁ ⊢
  have hrenamed : f s₀.processRegistrations.processRenames.jobQueue =
      f s₀.processRegistrations.jobQueue :=
    KeyedFold.foldl_invariant (fun c : RatingCalculatorImpl dm n =>
      f c.jobQueue = f s₀.processRegistrations.jobQueue)
      (fun c e h => (jobQueue_processRename hf e).trans h) _ _ rfl
  obtain ⟨s₁', hs₁', hclear⟩ := bind_eq_ok.mp hs₁
  have hconnected := KeyedFold.foldlM_invariant
    (fun c : RatingCalculatorImpl dm n => f c.jobQueue =
      f s₀.processRegistrations.processRenames.jobQueue)
    (fun c e c' h hc => (jobQueue_processConnectionChange hf hc).trans h)
    _ _ _ rfl hs₁'
  cases hclear
  obtain ⟨s₂', hs₂', hclear⟩ := bind_eq_ok.mp hdeals
  have hdealt : f s₂'.jobQueue = f s₁'.jobQueue := by
    refine KeyedFold.foldlM_invariant
      (fun c : RatingCalculatorImpl dm n => f c.jobQueue = f s₁'.jobQueue)
      (fun c e c' h hc => (jobQueue_processDeal hf hc).trans h) _ _ _ ?_ hs₂'
    rfl
  cases hclear
  obtain ⟨-, -, hmerged⟩ := merge_of_ok hmerge
  rw [hmerged]
  exact hdealt.trans (hconnected.trans hrenamed)

end Errors

end RatingCalculatorImpl

end RatingService
