import RatingService.Framework.PatchMerge
import RatingService.Service.JobQueue
import Mathlib.Data.List.Sort

/-!
# The rating calculator

`service/rating_calculator.cpp`: how one batch of incoming data is worked
into the user tables, the announcement buckets and the rating vector.

- §1: the patches of the rating and their multiset.
- §2: the rating utility tools: the insertion point, the block move with its
  assertion, the insertion, the renumbering.
- §3: the weekly drop and the four kinds of incoming data, in the order they
  are processed.
- §4: the in-place merge and `recalculate` itself.
-/

namespace RatingService

open PatchMerge

variable {dm : DataModel} {n : ℕ}

/-! ## §1  Rating patches -/

inductive RatingChangeType where
  | newPosition
  | oldPosition
deriving DecidableEq, Repr

def RatingChangeType.value : RatingChangeType → ℤ
  | .newPosition => 0
  | .oldPosition => 1

structure RatingPatchEntry (dm : DataModel) where
  userData : UserRef := .null
  elementsAfter : ℤ
  changeType : RatingChangeType := .oldPosition
  amountWon : MonetaryT dm := 0

/-- `RatingPatchEntry::operator<`. -/
def RatingPatchEntry.lt (left right : RatingPatchEntry dm) : Bool :=
  if left.elementsAfter ≠ right.elementsAfter then
    left.elementsAfter < right.elementsAfter
  else if left.changeType ≠ right.changeType then
    left.changeType.value < right.changeType.value
  else left.amountWon.toInt < right.amountWon.toInt

/-- `std::multiset<RatingPatchEntry>`, in iteration order. -/
abbrev RatingPatchSet (dm : DataModel) := List (RatingPatchEntry dm)

/-- `multiset::emplace`: behind the entries that compare equal. -/
def RatingPatchSet.emplace (set : RatingPatchSet dm)
    (entry : RatingPatchEntry dm) : RatingPatchSet dm :=
  List.orderedInsert (fun a b => a.lt b = true) entry set

/-! ## §2  Rating utility tools -/

namespace CoreRatingData

/-- `ratingElementsAfter`. The range is ordered by non-increasing winnings,
and `std::upper_bound` returns its first element with fewer of them. -/
def ratingElementsAfter (d : CoreRatingData dm) (winnings : MonetaryT dm) :
    Outcome ℤ := do
  let users ← d.rating.mapM d.load
  let pos := users.findIdx fun u => u.amountWon.toInt < winnings.toInt
  .ok (toInt (d.rating.length - pos))

/-- `ratingMoveBlock`. A negative `int` compared with `size()` turns into a
huge unsigned number. -/
def ratingMoveBlock (d : CoreRatingData dm) (pos length offset : ℤ) :
    Outcome (CoreRatingData dm) :=
  if length = 0 ∨ offset = 0 then .ok d
  else do
    assert (0 ≤ pos ∧ pos < d.rating.length ∧ length > 0 ∧ offset > 0 ∧
      pos + length + offset ≤ d.rating.length)
    if pos.toNat + length.toNat ≤ d.rating.length ∧
        (pos + offset).toNat + length.toNat ≤ d.rating.length then
      .ok { d with rating :=
        (memmove d.rating (pos + offset).toNat pos.toNat length.toNat) }
    else .error .outOfBounds

def ratingInsert (d : CoreRatingData dm) (pos : ℤ) (value : UserRef) :
    Outcome (CoreRatingData dm) := do
  assert (0 ≤ pos ∧ pos < d.rating.length)
  .ok { d with rating := d.rating.set pos.toNat value }

def ratingRefreshPositions (d : CoreRatingData dm) :
    Outcome (CoreRatingData dm) :=
  d.rating.zipIdx.foldlM
    (fun d e => d.modify e.1 fun u => { u with rating := e.2 }) d

end CoreRatingData

/-! ## §3  Working the batch in -/

structure RatingCalculatorImpl (dm : DataModel) (n : ℕ) where
  userData : CoreRatingData dm
  iterationData : IterationData
  incomingBuffer : IncomingDataBuffer dm
  jobQueue : JobQueue n
  ratingPatches : RatingPatchSet dm := []
  freshRatings : ℤ := 0

namespace RatingCalculatorImpl

def userExists (s : RatingCalculatorImpl dm n) (userId : IdT) : Bool :=
  (s.userData.silentUsers.lookup userId).isSome ||
    (s.userData.activeUsers.lookup userId).isSome

/-- `m_jobQueue.enqueueErrorJob`. -/
def enqueueError (s : RatingCalculatorImpl dm n)
    (error : GenericProtocolError) : RatingCalculatorImpl dm n :=
  { s with jobQueue := s.jobQueue.enqueueErrorJob error }

def dropRating (s : RatingCalculatorImpl dm n) : RatingCalculatorImpl dm n :=
  { s with
    userData := { s.userData with
      silentUsers := s.userData.activeUsers.entries.foldl
        (fun silent e => silent.emplace e.1 e.2.toBasicUserData)
        s.userData.silentUsers
      activeUsers := ∅
      rating := [] }
    iterationData := { usersOnline := fun _ => ∅ } }

/-- One turn of the loop of `processRegistrations`. -/
def processRegistration (s : RatingCalculatorImpl dm n)
    (newReg : IdT × BufferT) : RatingCalculatorImpl dm n :=
  if s.userExists newReg.1 then s.enqueueError (.multipleRegistration newReg.1)
  else
    { s with userData := { s.userData with
        silentUsers := s.userData.silentUsers.emplace newReg.1
          { name := newReg.2 } } }

def processRegistrations (s : RatingCalculatorImpl dm n) :
    RatingCalculatorImpl dm n :=
  let s := s.incomingBuffer.usersRegistered.toList.foldl processRegistration s
  { s with incomingBuffer := { s.incomingBuffer with usersRegistered := ∅ } }

/-- One turn of the loop of `processRenames`. -/
def processRename (s : RatingCalculatorImpl dm n) (newName : IdT × BufferT) :
    RatingCalculatorImpl dm n :=
  match s.userData.activeUsers.lookup newName.1 with
  | some u =>
      { s with userData := { s.userData with
          activeUsers := s.userData.activeUsers.insert newName.1
            { u with name := newName.2 } } }
  | none =>
      match s.userData.silentUsers.lookup newName.1 with
      | some u =>
          { s with userData := { s.userData with
              silentUsers := s.userData.silentUsers.insert newName.1
                { u with name := newName.2 } } }
      | none => s.enqueueError (.userUnrecognized newName.1)

def processRenames (s : RatingCalculatorImpl dm n) :
    RatingCalculatorImpl dm n :=
  let s := s.incomingBuffer.usersRenamed.toList.foldl processRename s
  { s with incomingBuffer := { s.incomingBuffer with usersRenamed := ∅ } }

end RatingCalculatorImpl

/-- `usersOnline[second].erase(user)`, for a connected user. -/
def IterationData.leave (it : IterationData) (second : StoredSecond)
    (user : UserRef) : IterationData :=
  if h : second.val < 60 then
    { usersOnline := Function.update it.usersOnline (second.bucket h)
        ((it.usersOnline (second.bucket h)).erase user) }
  else it

/-- `usersOnline[second].emplace(user)`, for a connected user. -/
def IterationData.enter (it : IterationData) (second : StoredSecond)
    (user : UserRef) : IterationData :=
  if h : second.val < 60 then
    { usersOnline := Function.update it.usersOnline (second.bucket h)
        (insert user (it.usersOnline (second.bucket h))) }
  else it

namespace RatingCalculatorImpl

/-- One turn of the loop of `processConnectionChanges`. -/
def processConnectionChange (s : RatingCalculatorImpl dm n)
    (connChange : IdT × ConnectTimeT) :
    Outcome (RatingCalculatorImpl dm n) :=
  if h : connChange.2 < 60 ∨ connChange.2 = invalidSecond then
    let second : StoredSecond := ⟨connChange.2, h⟩
    match s.userData.activeUsers.lookup connChange.1 with
    | some u =>
        .ok { s with
          userData := { s.userData with
            activeUsers := s.userData.activeUsers.insert connChange.1
              { u with secondConnected := second } }
          iterationData :=
            (s.iterationData.leave u.secondConnected (u.ref connChange.1)).enter
              second (u.ref connChange.1) }
    | none =>
        match s.userData.silentUsers.lookup connChange.1 with
        | some u =>
            .ok { s with userData := { s.userData with
              silentUsers := s.userData.silentUsers.insert connChange.1
                { u with secondConnected := second } } }
        | none => .ok (s.enqueueError (.userUnrecognized connChange.1))
  else .error .assertion

def processConnectionChanges (s : RatingCalculatorImpl dm n) :
    Outcome (RatingCalculatorImpl dm n) := do
  let s ← s.incomingBuffer.connectionChanges.toList.foldlM
    processConnectionChange s
  .ok { s with
    incomingBuffer := { s.incomingBuffer with connectionChanges := ∅ } }

/-- `processDeals` for a user who had rating before: one patch takes him out
of his position, one puts him where his new winnings belong. -/
def processActiveDeal (s : RatingCalculatorImpl dm n)
    (newDeal : IdT × MonetaryT dm) (userProfile : FullUserData dm) :
    Outcome (RatingCalculatorImpl dm n) := do
  let removal : RatingPatchEntry dm :=
    { elementsAfter := toInt s.userData.rating.length - userProfile.rating - 1 }
  let elementsAfter ←
    s.userData.ratingElementsAfter (userProfile.amountWon + newDeal.2)
  let insertion : RatingPatchEntry dm :=
    { userData := userProfile.ref newDeal.1
      elementsAfter := elementsAfter
      changeType := .newPosition
      amountWon := userProfile.amountWon + newDeal.2 }
  .ok { s with
    ratingPatches := (s.ratingPatches.emplace removal).emplace insertion }

/-- `processDeals` for a user who had no rating: his record becomes a
`FullUserData`, which the active users' table then owns. -/
def processSilentDeal (s : RatingCalculatorImpl dm n)
    (newDeal : IdT × MonetaryT dm) (silentUser : BasicUserData) :
    Outcome (RatingCalculatorImpl dm n) := do
  let userProfile : FullUserData dm :=
    { silentUser with
      id := newDeal.1, amountWon := newDeal.2, serial := s.userData.nextSerial }
  let elementsAfter ← s.userData.ratingElementsAfter userProfile.amountWon
  let insertion : RatingPatchEntry dm :=
    { userData := userProfile.ref newDeal.1
      elementsAfter := elementsAfter
      changeType := .newPosition
      amountWon := userProfile.amountWon }
  .ok { s with
    userData := { s.userData with
      silentUsers := s.userData.silentUsers.erase newDeal.1
      activeUsers := s.userData.activeUsers.emplace newDeal.1 userProfile
      nextSerial := s.userData.nextSerial + 1 }
    iterationData := s.iterationData.enter userProfile.secondConnected
      (userProfile.ref newDeal.1)
    ratingPatches := s.ratingPatches.emplace insertion
    freshRatings := s.freshRatings + 1 }

/-- One turn of the loop of `processDeals`. -/
def processDeal (s : RatingCalculatorImpl dm n)
    (newDeal : IdT × MonetaryT dm) : Outcome (RatingCalculatorImpl dm n) :=
  match s.userData.activeUsers.lookup newDeal.1 with
  | some u => s.processActiveDeal newDeal u
  | none =>
      match s.userData.silentUsers.lookup newDeal.1 with
      | some u => s.processSilentDeal newDeal u
      | none => .ok (s.enqueueError (.userUnrecognized newDeal.1))

def processDeals (s : RatingCalculatorImpl dm n) :
    Outcome (RatingCalculatorImpl dm n) := do
  let s ← s.incomingBuffer.dealsWon.toList.foldlM processDeal s
  .ok { s with incomingBuffer := { s.incomingBuffer with dealsWon := ∅ } }

end RatingCalculatorImpl

/-! ## §4  The merge -/

structure MergeState (dm : DataModel) where
  userData : CoreRatingData dm
  offset : ℤ
  oldPositions : ℤ := 0
  lengthDone : ℤ := 0

def mergePatch (oldRatingVectorSize : ℤ) (st : MergeState dm)
    (ratingPatch : RatingPatchEntry dm) : Outcome (MergeState dm) :=
  let position := oldRatingVectorSize - ratingPatch.elementsAfter
  let blockLength := ratingPatch.elementsAfter - st.lengthDone - st.oldPositions
  match ratingPatch.changeType with
  | .oldPosition => do
      let userData ← st.userData.ratingMoveBlock position blockLength st.offset
      .ok { userData
            offset := st.offset + 1
            oldPositions := st.oldPositions + 1
            lengthDone := st.lengthDone + blockLength }
  | .newPosition => do
      let userData ← st.userData.ratingMoveBlock position blockLength st.offset
      let offset := st.offset - 1
      let userData ← userData.ratingInsert (position + offset)
        ratingPatch.userData
      -- the new winnings go in only now: while patches are prepared, the old
      -- ones have to order the rating
      let userData ← userData.modify ratingPatch.userData fun u =>
        { u with amountWon := ratingPatch.amountWon }
      .ok { userData
            offset
            oldPositions := st.oldPositions
            lengthDone := st.lengthDone + blockLength }

namespace RatingCalculatorImpl

/-- The steps of `recalculate` before the merge. -/
def prepare (s : RatingCalculatorImpl dm n) (dropOldRating : Bool) :
    Outcome (RatingCalculatorImpl dm n) := do
  let s := if dropOldRating then s.dropRating else s
  let s ← s.processRegistrations.processRenames.processConnectionChanges
  s.processDeals

/-- The merge of `recalculate`: the vector grows by the fresh ratings, the
patches are applied, the positions are renumbered. A negative size would
throw `std::length_error`. -/
def merge (s : RatingCalculatorImpl dm n) :
    Outcome (RatingCalculatorImpl dm n) := do
  let oldRatingVectorSize := toInt s.userData.rating.length
  let newSize := wrapInt (oldRatingVectorSize + s.freshRatings)
  if newSize < 0 then .error (.thrown .stdException)
  else
    let resized := s.userData.rating.take newSize.toNat ++
      List.replicate (newSize.toNat - s.userData.rating.length) .null
    let st ← s.ratingPatches.foldlM (mergePatch oldRatingVectorSize)
      { userData := { s.userData with rating := resized }
        offset := s.freshRatings }
    let userData ← st.userData.ratingRefreshPositions
    .ok { s with userData }

/-- `RatingCalculatorImpl::recalculate`. -/
def recalculate (s : RatingCalculatorImpl dm n) (dropOldRating : Bool) :
    Outcome (RatingCalculatorImpl dm n) := do
  let s ← s.prepare dropOldRating
  s.merge

end RatingCalculatorImpl

end RatingService
