import RatingService.Service.DuplicateRegistrations
import RatingService.Service.RecognizedUsers

/-!
# Reported errors

The error jobs of a recalculation, in their order. They follow from the tables
and the batch as they are at its beginning: a turn of a loop looks at the one
user it is about.

- §1: what is to be reported.
- §2: a turn of each loop.
- §3: the loops.
-/

namespace RatingService

variable {dm : DataModel} {n : ℕ}

/-! ## §1  What is to be reported -/

def GenericProtocolError.AboutUser : GenericProtocolError → Prop
  | .userUnrecognized _ | .multipleRegistration _ => True
  | .unsupportedProtocolVersion _ => False

namespace RatingCalculatorImpl

variable {s s' : RatingCalculatorImpl dm n}

def recognizes (s : RatingCalculatorImpl dm n) (id : IdT) : Bool :=
  (s.userState id).isRegistered ||
    (s.incomingBuffer.usersRegistered[id]?).isSome

def unrecognized {V : Type} (s : RatingCalculatorImpl dm n)
    (m : Std.TreeMap IdT V) : List GenericProtocolError :=
  (m.toList.filter fun e => !s.recognizes e.1).map fun e =>
    .userUnrecognized e.1

def reportedErrors (s : RatingCalculatorImpl dm n) :
    List GenericProtocolError :=
  ((s.incomingBuffer.usersRegistered.toList.filter fun e =>
      (s.userState e.1).isRegistered).map fun e => .multipleRegistration e.1) ++
    s.unrecognized s.incomingBuffer.usersRenamed ++
    s.unrecognized s.incomingBuffer.connectionChanges ++
    s.unrecognized s.incomingBuffer.dealsWon

theorem reportedErrors_aboutUser (s : RatingCalculatorImpl dm n) :
    ∀ e ∈ s.reportedErrors, e.AboutUser := by
  have hunrecognized : ∀ {V : Type} (m : Std.TreeMap IdT V),
      ∀ e ∈ s.unrecognized m, e.AboutUser := by
    intro V m e he
    obtain ⟨entry, -, rfl⟩ := List.mem_map.mp he
    exact trivial
  intro e he
  simp only [reportedErrors, List.mem_append] at he
  rcases he with ((he | he) | he) | he
  · obtain ⟨entry, -, rfl⟩ := List.mem_map.mp he
    exact trivial
  all_goals exact hunrecognized _ e he

/-! ## §2  A turn of each loop -/

theorem jobQueue_registration (s : RatingCalculatorImpl dm n)
    (e : IdT × BufferT) :
    (s.processRegistration e).jobQueue =
      if (s.userState e.1).isRegistered then
        s.jobQueue.enqueueErrorJob (.multipleRegistration e.1)
      else s.jobQueue := by
  rw [← userExists_eq_isRegistered, processRegistration]
  split <;> rfl

def reportUnrecognized (q : JobQueue n) (id : IdT) (registered : Bool) :
    JobQueue n :=
  if registered then q else q.enqueueErrorJob (.userUnrecognized id)

theorem jobQueue_rename (s : RatingCalculatorImpl dm n) (e : IdT × BufferT) :
    (s.processRename e).jobQueue =
      reportUnrecognized s.jobQueue e.1 (s.userState e.1).isRegistered := by
  rw [← userExists_eq_isRegistered, processRename, reportUnrecognized,
    userExists]
  cases s.userData.activeUsers.lookup e.1 <;>
    cases s.userData.silentUsers.lookup e.1 <;> simp [enqueueError]

theorem jobQueue_connectionChange {e : IdT × ConnectTimeT}
    (hs : s.processConnectionChange e = .ok s') :
    s'.jobQueue =
      reportUnrecognized s.jobQueue e.1 (s.userState e.1).isRegistered := by
  rw [← userExists_eq_isRegistered, reportUnrecognized, userExists]
  unfold processConnectionChange at hs
  split at hs
  · cases ha : s.userData.activeUsers.lookup e.1 <;>
      cases hb : s.userData.silentUsers.lookup e.1 <;>
      simp only [ha, hb] at hs <;> cases hs <;> simp [enqueueError]
  · cases hs

theorem jobQueue_deal {e : IdT × MonetaryT dm} (hs : s.processDeal e = .ok s') :
    s'.jobQueue =
      reportUnrecognized s.jobQueue e.1 (s.userState e.1).isRegistered := by
  rw [← userExists_eq_isRegistered, reportUnrecognized, userExists]
  unfold processDeal at hs
  cases ha : s.userData.activeUsers.lookup e.1 with
  | some u =>
      rw [ha] at hs
      obtain ⟨patches, rfl⟩ := processActiveDeal_of_ok hs
      simp
  | none =>
      rw [ha] at hs
      cases hb : s.userData.silentUsers.lookup e.1 with
      | some u =>
          rw [hb] at hs
          obtain ⟨patches, fresh, rfl⟩ := processSilentDeal_of_ok hs
          simp
      | none =>
          rw [hb] at hs
          cases hs
          simp [enqueueError]

/-! ## §3  The loops -/

theorem foldl_reportUnrecognized {V : Type} {m : Std.TreeMap IdT V}
    (known : IdT → Bool) (hknown : ∀ id, known id = s.recognizes id)
    (q : JobQueue n) :
    m.toList.foldl (fun q e => reportUnrecognized q e.1 (known e.1)) q =
      (s.unrecognized m).foldl JobQueue.enqueueErrorJob q := by
  rw [unrecognized, List.foldl_map, List.foldl_filter]
  refine List.foldl_ext _ _ _ fun q e _ => ?_
  rw [reportUnrecognized, hknown]
  cases s.recognizes e.1 <;> rfl

theorem jobQueue_registrations (s : RatingCalculatorImpl dm n) :
    s.processRegistrations.jobQueue =
      ((s.incomingBuffer.usersRegistered.toList.filter fun e =>
        (s.userState e.1).isRegistered).map fun e =>
          GenericProtocolError.multipleRegistration e.1).foldl
        JobQueue.enqueueErrorJob s.jobQueue := by
  rw [List.foldl_map, List.foldl_filter]
  exact KeyedFold.foldl_emits Prod.fst userState (·.jobQueue)
    (fun q e st => if st.isRegistered then
      q.enqueueErrorJob (.multipleRegistration e.1) else q)
    jobQueue_registration (fun s e _ => processRegistration_other s e) _ _
    (nodup_toList_keys _)

theorem jobQueue_renames (s : RatingCalculatorImpl dm n) :
    s.processRenames.jobQueue = s.incomingBuffer.usersRenamed.toList.foldl
      (fun q e => reportUnrecognized q e.1 (s.userState e.1).isRegistered)
      s.jobQueue :=
  KeyedFold.foldl_emits Prod.fst userState (·.jobQueue)
    (fun q e st => reportUnrecognized q e.1 st.isRegistered)
    jobQueue_rename (fun s e _ => processRename_other s e) _ _
    (nodup_toList_keys _)

theorem jobQueue_connectionChanges (hdisj : s.userData.Disjoint)
    (hs : s.processConnectionChanges = .ok s') :
    s'.jobQueue = s.incomingBuffer.connectionChanges.toList.foldl
      (fun q e => reportUnrecognized q e.1 (s.userState e.1).isRegistered)
      s.jobQueue := by
  obtain ⟨s₁, hs₁, hs'⟩ := bind_eq_ok.mp hs
  cases hs'
  refine KeyedFold.foldlM_emits Prod.fst userState (·.jobQueue)
    (fun q e st => reportUnrecognized q e.1 st.isRegistered)
    (fun s => s.userData.Disjoint) ?_ _ s s₁ (nodup_toList_keys _) hdisj hs₁
  intro s e s' hinv hs
  have he : e.2 < 60 ∨ e.2 = invalidSecond := by
    by_contra he
    rw [processConnectionChange, dif_neg he] at hs
    cases hs
  obtain ⟨s'', hs'', hdisj', -, -, hother⟩ :=
    processConnectionChange_spec e hinv he
  cases hs.symm.trans hs''
  exact ⟨hdisj', jobQueue_connectionChange hs, hother⟩

theorem jobQueue_deals (hdisj : s.userData.Disjoint)
    (hs : s.processDeals = .ok s') :
    s'.jobQueue = s.incomingBuffer.dealsWon.toList.foldl
      (fun q e => reportUnrecognized q e.1 (s.userState e.1).isRegistered)
      s.jobQueue := by
  obtain ⟨s₁, hs₁, hs'⟩ := bind_eq_ok.mp hs
  cases hs'
  refine KeyedFold.foldlM_emits Prod.fst userState (·.jobQueue)
    (fun q e st => reportUnrecognized q e.1 st.isRegistered)
    (fun s => s.userData.Disjoint) ?_ _ s s₁ (nodup_toList_keys _) hdisj hs₁
  intro s e s' hinv hs
  obtain ⟨hdisj', -, hother⟩ := processDeal_of_ok hinv hs
  exact ⟨hdisj', jobQueue_deal hs, hother⟩

/-- The registrations and the renames, from the tables with or without the
drop. -/
theorem registered_and_renamed (s₀ : RatingCalculatorImpl dm n)
    (hdisj : s₀.userData.Disjoint) :
    (∀ id, (s₀.processRegistrations.userState id).isRegistered =
      s₀.recognizes id) ∧
    (∀ id, (s₀.processRegistrations.processRenames.userState id).isRegistered =
      s₀.recognizes id) ∧
    s₀.processRegistrations.incomingBuffer =
      { s₀.incomingBuffer with usersRegistered := ∅ } ∧
    s₀.processRegistrations.processRenames.incomingBuffer =
      { s₀.incomingBuffer with usersRegistered := ∅, usersRenamed := ∅ } ∧
    s₀.processRegistrations.processRenames.userData.Disjoint := by
  obtain ⟨hkeep₁, hdisj₁⟩ := foldl_keeps processRegistration_keeps
    (fun s e => processRegistration_disjoint e)
    s₀.incomingBuffer.usersRegistered.toList s₀ hdisj
  have hbuffer₁ : s₀.processRegistrations.incomingBuffer =
      { s₀.incomingBuffer with usersRegistered := ∅ } :=
    congrArg (fun b : IncomingDataBuffer dm => { b with usersRegistered := ∅ })
      hkeep₁.incomingBuffer
  obtain ⟨hkeep₂, hdisj₂⟩ := foldl_keeps processRename_keeps
    (fun s e => processRename_disjoint e)
    s₀.processRegistrations.incomingBuffer.usersRenamed.toList
    s₀.processRegistrations hdisj₁
  have hbuffer₂ := congrArg
    (fun b : IncomingDataBuffer dm => { b with usersRenamed := ∅ })
    hkeep₂.incomingBuffer
  have hknown : ∀ id, (s₀.processRegistrations.userState id).isRegistered =
      s₀.recognizes id := by
    intro id
    rw [processRegistrations_userState, recognizes]
    cases s₀.incomingBuffer.usersRegistered[id]? <;>
      simp [UserState.isRegistered_registered]
  refine ⟨hknown, fun id => ?_, hbuffer₁, hbuffer₂.trans ?_, hdisj₂⟩
  · rw [processRenames_userState, ← hknown]
    cases s₀.processRegistrations.incomingBuffer.usersRenamed[id]? <;>
      simp [UserState.isRegistered_renamed]
  · rw [hbuffer₁]

/-- **The error jobs of a recalculation** that completes are the ones its
tables and its batch ask for, in the order of the four loops. -/
theorem jobQueue_eq {dropOldRating : Bool} (hdisj : s.userData.Disjoint)
    (hsec : s.incomingBuffer.SecondsOk)
    (hs : s.recalculate dropOldRating = .ok s') :
    s'.jobQueue =
      s.reportedErrors.foldl JobQueue.enqueueErrorJob s.jobQueue := by
  -- the drop leaves nobody unknown
  obtain ⟨s₀, hs₀, hqueue₀, hbuffer₀, hknown₀, hdisj₀⟩ : ∃ s₀,
      (if dropOldRating then s.dropRating else s) = s₀ ∧
      s₀.jobQueue = s.jobQueue ∧ s₀.incomingBuffer = s.incomingBuffer ∧
      (∀ id, (s₀.userState id).isRegistered =
        (s.userState id).isRegistered) ∧ s₀.userData.Disjoint := by
    cases dropOldRating with
    | true =>
        refine ⟨_, rfl, rfl, rfl, fun id => ?_, dropRating_disjoint s⟩
        rw [if_pos rfl, dropRating_userState hdisj,
          UserState.isRegistered_dropped]
    | false => exact ⟨_, rfl, rfl, rfl, fun _ => rfl, hdisj⟩
  have hrecognizes : ∀ id, s₀.recognizes id = s.recognizes id := fun id => by
    rw [recognizes, hknown₀, hbuffer₀, recognizes]
  obtain ⟨hknown₁, hknown₂, hbuffer₁, hbuffer₂, hdisj₂⟩ :=
    registered_and_renamed s₀ hdisj₀
  -- the two loops that may fail, and the merge
  obtain ⟨s₃, hs₃, hbefore⟩ := beforeDeals_spec dropOldRating hdisj hsec
  rw [recalculate, prepare_eq, hs₃, ok_bind] at hs
  obtain ⟨s₄, hdeals, hmerge⟩ := bind_eq_ok.mp hs
  rw [beforeDeals, hs₀] at hs₃
  obtain ⟨-, -, hqueue₄⟩ := merge_of_ok hmerge
  rw [hqueue₄, jobQueue_deals hbefore.disjoint hdeals, hbefore.incomingBuffer,
    jobQueue_connectionChanges hdisj₂ hs₃, hbuffer₂, jobQueue_renames, hbuffer₁,
    jobQueue_registrations, hbuffer₀, hqueue₀, reportedErrors,
    List.foldl_append, List.foldl_append, List.foldl_append]
  rw [foldl_reportUnrecognized (s := s)
      (fun id => (s₃.userState id).isRegistered) fun id => by
        rw [hbefore.userState, isRegistered_batchState, recognizes],
    foldl_reportUnrecognized (s := s)
      (fun id => (s₀.processRegistrations.processRenames.userState
        id).isRegistered) fun id => (hknown₂ id).trans (hrecognizes id),
    foldl_reportUnrecognized (s := s)
      (fun id => (s₀.processRegistrations.userState id).isRegistered)
      fun id => (hknown₁ id).trans (hrecognizes id)]
  simp only [hknown₀]

end RatingCalculatorImpl

end RatingService
