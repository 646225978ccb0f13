import RatingService.Framework.KeyedFold
import RatingService.Service.Minutes
import Std.Data.TreeSet.Lemmas

/-!
# The client's storage

`UserDataStorage::Impl` of `test/storage.cpp`: the users of the test client in
four maps, by what they have won and by whether they are connected, and the
rating made of them from scratch.

One map owns a user's object, and `m_index` points to it under the same id. The
model keeps the object's data in the index and the ids in the maps; a raw
pointer is an id.

`UserDataStorage::getRandomUser` and `Impl::fixUserWinnings` run off their end
without the `return` their types ask for, which leaves what they do undefined.
Here the one hands on the id that `Impl::getRandomUser` returns, and the other
completes; nobody uses its value.

- §1: the data.
- §2: drawing a user.
- §3: what happens to a user.
- §4: the rating.
- §5: the maps agree with the index.
- §6: the rating is that of the users.
-/

namespace RatingService

variable {dm : DataModel}

/-! ## §1  The data -/

/-- `FullUserDataEx`, with what it inherits. -/
structure FullUserDataEx (dm : DataModel) where
  id : IdT := invalidId
  name : BufferT := []
  secondConnected : ConnectTimeT := invalidSecond
  winnings : MonetaryT dm := 0
  rating : ℤ := invalidRating
  ratingReceived : Bool := false
  winningsHistory : List (MonetaryT dm) := []
  nameList : List BufferT := []

def historyLength : ℕ := 6

/-- The `push_back` and the `pop_front` of a history. -/
def pushHistory {α : Type} (history : List α) (a : α) : List α :=
  let history := history ++ [a]
  if history.length > historyLength then history.tail else history

structure ValidationReport where
  incomingRatings : ℕ := 0
  incomingErrors : ℕ := 0
  validRatings : ℕ := 0
  validErrors : ℕ := 0
  /-- `almostValidRatings` -/
  outdatedWinnings : ℕ := 0
  /-- `invalidRatings`, from here on -/
  ratingFullyMessed : ℕ := 0
  ratingSizeWrong : ℕ := 0
  userNotFound : ℕ := 0
  userPositionWrong : ℕ := 0
  topPositionsWrong : ℕ := 0
  surroundingsWrong : ℕ := 0
  failures : ℕ := 0
deriving DecidableEq

/-- The members of `UserDataStorage::Impl`. The maps: the active users who are
connected, the active ones who are not, the silent ones who are, those who are
not. -/
structure UserDataStorage (dm : DataModel) where
  users : Fin 4 → Std.TreeSet IdT := fun _ => ∅
  index : Std.TreeMap IdT (FullUserDataEx dm) := ∅
  rating : List IdT := []
  report : ValidationReport := {}

namespace UserDataStorage

def user (s : UserDataStorage dm) (id : IdT) : FullUserDataEx dm :=
  s.index.getD id {}

def setUser (s : UserDataStorage dm) (id : IdT) (u : FullUserDataEx dm) :
    UserDataStorage dm :=
  { s with index := s.index.insert id u }

end UserDataStorage

/-! ## §2  Drawing a user -/

abbrev UserFlags := UInt32

namespace UserFlags

def connected : UserFlags := 1
def disconnected : UserFlags := 2
def active : UserFlags := 4
def silent : UserFlags := 8
def connectedAny : UserFlags := connected ||| active ||| silent
def disconnectedAny : UserFlags := disconnected ||| active ||| silent
def anyone : UserFlags := 4294967295

end UserFlags

namespace UserDataStorage

/-- `maps` in `getRandomUser`. -/
def selectedMaps (userFlags : UserFlags) : List (Fin 4) :=
  let maps := [0, 1, 2, 3]
  let maps := if userFlags &&& UserFlags.connected = 0 then
    (maps.erase 0).erase 2 else maps
  let maps := if userFlags &&& UserFlags.disconnected = 0 then
    (maps.erase 1).erase 3 else maps
  let maps := if userFlags &&& UserFlags.active = 0 then
    (maps.erase 0).erase 1 else maps
  if userFlags &&& UserFlags.silent = 0 then (maps.erase 2).erase 3 else maps

def getCumulativeSize (s : UserDataStorage dm) (mapIndexes : List (Fin 4)) :
    ℕ :=
  (mapIndexes.map fun mi => (s.users mi).size).sum

def getUserByIndex (s : UserDataStorage dm) :
    List (Fin 4) → ℕ → Outcome IdT
  | [], _ => .error .assertion
  | mi :: mapIndexes, userIndex =>
      if userIndex ≥ (s.users mi).size then
        s.getUserByIndex mapIndexes (userIndex - (s.users mi).size)
      else
        match (s.users mi).toList[userIndex]? with
        | some id => .ok id
        -- not reached: the index is below the size
        | none => .error .assertion

/-- `index` is within the range of the distribution. -/
def CanDraw (s : UserDataStorage dm) (userFlags : UserFlags) (index : ℕ) :
    Prop :=
  index < s.getCumulativeSize (selectedMaps userFlags)

instance (s : UserDataStorage dm) (userFlags : UserFlags) (index : ℕ) :
    Decidable (s.CanDraw userFlags index) :=
  inferInstanceAs (Decidable (_ < _))

/-- `getRandomUser`, with the index the generator returns. The function that
the client calls calls this one and returns nothing. -/
def getRandomUser (s : UserDataStorage dm) (userFlags : UserFlags)
    (index : ℕ) : Outcome IdT :=
  s.getUserByIndex (selectedMaps userFlags) index

/-! ## §3  What happens to a user -/

/-- `m_index.find`, with the assertion that it finds somebody. -/
def find (s : UserDataStorage dm) (id : IdT) : Outcome (FullUserDataEx dm) :=
  match s.index[id]? with
  | some userData => .ok userData
  | none => .error .assertion

def emplaceUser (s : UserDataStorage dm) (id : IdT) (name : BufferT) :
    UserDataStorage dm :=
  { s with
    users := Function.update s.users 3 ((s.users 3).insert id)
    index := s.index.insertIfNew id { id, name } }

/-- `generateNewUser`, with the value of its static counter and the name. -/
def generateNewUser (s : UserDataStorage dm) (newUserId : IdT)
    (name : BufferT) : UserDataStorage dm :=
  s.emplaceUser newUserId name

def importNewUser (s : UserDataStorage dm) (id : IdT) (name : BufferT) :
    UserDataStorage dm :=
  s.emplaceUser id name

def findAndMigrate (s : UserDataStorage dm) (mapFrom mapTo : Fin 4)
    (id : IdT) : Outcome (UserDataStorage dm) := do
  assert (id ∈ s.users mapFrom)
  let users := Function.update s.users mapFrom ((s.users mapFrom).erase id)
  .ok { s with users := Function.update users mapTo ((users mapTo).insert id) }

def renameUser (s : UserDataStorage dm) (id : IdT) (newName : BufferT) :
    Outcome (UserDataStorage dm) := do
  let userData ← s.find id
  .ok (s.setUser id { userData with
    nameList := pushHistory userData.nameList userData.name
    name := newName })

def connectUser (s : UserDataStorage dm) (id : IdT) (second : ConnectTimeT) :
    Outcome (UserDataStorage dm) := do
  let userData ← s.find id
  let s := s.setUser id { userData with secondConnected := second }
  if userData.winnings ≠ 0 then s.findAndMigrate 1 0 id
  else s.findAndMigrate 3 2 id

def disconnectUser (s : UserDataStorage dm) (id : IdT) :
    Outcome (UserDataStorage dm) := do
  let userData ← s.find id
  let userData := { userData with secondConnected := invalidSecond }
  if userData.winnings ≠ 0 then
    let s ← (s.setUser id userData).findAndMigrate 0 1 id
    .ok (s.setUser id { userData with ratingReceived := false })
  else (s.setUser id userData).findAndMigrate 2 3 id

/-- `fixUserWinnings`, as if it returned. -/
def fixUserWinnings (s : UserDataStorage dm) (id : IdT)
    (winnings : MonetaryT dm) : Outcome (UserDataStorage dm) := do
  let userData ← s.find id
  let s ←
    if userData.winnings = 0 then
      if userData.secondConnected = invalidSecond then s.findAndMigrate 3 1 id
      else s.findAndMigrate 2 0 id
    else .ok s
  .ok (s.setUser id { userData with
    winningsHistory := pushHistory userData.winningsHistory userData.winnings
    winnings := userData.winnings + winnings })

end UserDataStorage

/-! ## §4  The rating -/

/-- `RatingMultimap`, in iteration order. -/
abbrev RatingMultimap (dm : DataModel) := List (MonetaryT dm × IdT)

/-- `multimap::emplace`: behind the entries with as much. -/
def RatingMultimap.emplace (map : RatingMultimap dm)
    (entry : MonetaryT dm × IdT) : RatingMultimap dm :=
  List.orderedInsert (fun a b => b.1.toInt < a.1.toInt) entry map

namespace UserDataStorage

/-- The users of some of the maps, as `forEachInMaps` meets them. -/
def idsOf (s : UserDataStorage dm) (mapIndexes : List (Fin 4)) : List IdT :=
  mapIndexes.flatMap fun mi => (s.users mi).toList

def activeIds (s : UserDataStorage dm) : List IdT := s.idsOf [0, 1]

def ratingBuilder (s : UserDataStorage dm) : RatingMultimap dm :=
  (s.idsOf [0, 1]).foldl
    (fun map id => map.emplace ((s.user id).winnings, id)) []

/-- `ud->rating = place`. -/
def setRating (s : UserDataStorage dm) (id : IdT) (place : ℤ) :
    UserDataStorage dm :=
  s.setUser id { s.user id with rating := place }

def recalculateRating (s : UserDataStorage dm) : UserDataStorage dm :=
  let rating := s.ratingBuilder.map Prod.snd
  let s := rating.zipIdx.foldl (fun s e => s.setRating e.1 e.2)
    { s with rating }
  (s.idsOf [2, 3]).foldl (fun s id => s.setRating id invalidRating) s

/-- `setNextMinuteData`, but for the printing. -/
def setNextMinuteData (s newData : UserDataStorage dm) : UserDataStorage dm :=
  recalculateRating
    { s with
      users := newData.users
      index := (newData.idsOf [0, 1, 2, 3]).foldl
        (fun index id => index.insertIfNew id (newData.user id)) ∅
      report := {} }

end UserDataStorage

/-- The lines of `publishValidationReport` that count. -/
structure PublishedReport where
  report : ValidationReport
  invalidRatings : ℤ
  invalidErrors : ℤ
  unsolicitedRatingsReceived : ℕ
  requestedRatingsMissed : ℕ
deriving DecidableEq

def UserDataStorage.publishValidationReport (s : UserDataStorage dm) :
    PublishedReport where
  report := s.report
  invalidRatings := s.report.incomingRatings - s.report.validRatings
  invalidErrors := s.report.incomingErrors - s.report.validErrors
  unsolicitedRatingsReceived :=
    (s.idsOf [1, 3]).countP fun id => (s.user id).ratingReceived
  requestedRatingsMissed :=
    (s.idsOf [0]).countP fun id => !(s.user id).ratingReceived

/-! ## §5  The maps and the index -/

def FullUserDataEx.home (u : FullUserDataEx dm) : Fin 4 :=
  if u.winnings ≠ 0 then if u.secondConnected = invalidSecond then 1 else 0
  else if u.secondConnected = invalidSecond then 3 else 2

namespace FullUserDataEx

variable {u : FullUserDataEx dm}

theorem home_activeConnected (hwon : u.winnings ≠ 0)
    (hconnected : u.secondConnected ≠ invalidSecond) : u.home = 0 := by
  rw [home, if_pos hwon, if_neg hconnected]

theorem home_activeDisconnected (hwon : u.winnings ≠ 0)
    (hdisconnected : u.secondConnected = invalidSecond) : u.home = 1 := by
  rw [home, if_pos hwon, if_pos hdisconnected]

theorem home_silentConnected (hwon : u.winnings = 0)
    (hconnected : u.secondConnected ≠ invalidSecond) : u.home = 2 := by
  rw [home, if_neg (not_not.mpr hwon), if_neg hconnected]

theorem home_silentDisconnected (hwon : u.winnings = 0)
    (hdisconnected : u.secondConnected = invalidSecond) : u.home = 3 := by
  rw [home, if_neg (not_not.mpr hwon), if_pos hdisconnected]

theorem home_new (id : IdT) (name : BufferT) :
    ({ id, name } : FullUserDataEx dm).home = 3 :=
  home_silentDisconnected rfl rfl

end FullUserDataEx

open FullUserDataEx

namespace UserDataStorage

variable {s s' newData : UserDataStorage dm} {id : IdT}
  {u u' : FullUserDataEx dm}

/-- **The maps agree with the index**: everybody is in one map, the one he
belongs in. -/
structure Housed (s : UserDataStorage dm) : Prop where
  housed : ∀ k (id : IdT),
    id ∈ s.users k ↔ ∃ u, s.index[id]? = some u ∧ u.home = k
  keyed : ∀ (id : IdT) u, s.index[id]? = some u → u.id = id

theorem housed_empty : ({} : UserDataStorage dm).Housed := by
  constructor
  · intro k id
    simp
  · intro id u hu
    simp at hu

theorem find_of_index (hu : s.index[id]? = some u) : s.find id = .ok u := by
  rw [find, hu]

theorem user_of_index (hu : s.index[id]? = some u) : s.user id = u := by
  rw [user, Std.TreeMap.getD_eq_getD_getElem?, hu, Option.getD_some]

theorem index_setUser (s : UserDataStorage dm) (id : IdT)
    (u : FullUserDataEx dm) (k : IdT) :
    (s.setUser id u).index[k]? = if id = k then some u else s.index[k]? :=
  getElem?_insert s.index id k u

theorem Housed.setUser (h : s.Housed) (hu : s.index[id]? = some u)
    (hhome : u'.home = u.home) (hid : u'.id = id) :
    (s.setUser id u').Housed := by
  constructor
  · intro k id'
    rw [index_setUser]
    by_cases heq : id = id'
    · subst heq
      rw [if_pos rfl]
      refine (h.housed k id).trans ?_
      simp only [hu, Option.some.injEq, exists_eq_left', hhome]
    · rw [if_neg heq]
      exact h.housed k id'
  · intro id' v hv
    rw [index_setUser] at hv
    split at hv
    · next heq =>
      cases hv
      exact heq ▸ hid
    · exact h.keyed id' v hv

/-- The effect of `findAndMigrate`. -/
def migrated (s : UserDataStorage dm) (mapFrom mapTo : Fin 4) (id : IdT) :
    UserDataStorage dm :=
  let users := Function.update s.users mapFrom ((s.users mapFrom).erase id)
  { s with users := Function.update users mapTo ((users mapTo).insert id) }

theorem findAndMigrate_of_mem {mapFrom : Fin 4} (mapTo : Fin 4)
    (h : id ∈ s.users mapFrom) :
    s.findAndMigrate mapFrom mapTo id = .ok (s.migrated mapFrom mapTo id) := by
  rw [findAndMigrate, assert_of h, ok_bind]
  rfl

theorem mem_migrated (s : UserDataStorage dm) (mapFrom mapTo k : Fin 4)
    (id id' : IdT) :
    id' ∈ (s.migrated mapFrom mapTo id).users k ↔
      if id = id' then k = mapTo ∨ k ≠ mapFrom ∧ id' ∈ s.users k
      else id' ∈ s.users k := by
  have herase : ∀ k, id' ∈ Function.update s.users mapFrom
      ((s.users mapFrom).erase id) k ↔
        (k = mapFrom → id ≠ id') ∧ id' ∈ s.users k := by
    intro k
    by_cases hk : k = mapFrom
    · subst hk
      simp [Std.TreeSet.mem_erase]
    · simp [hk]
  dsimp only [migrated]
  by_cases hk : k = mapTo
  · subst hk
    rw [Function.update_self, Std.TreeSet.mem_insert, compare_eq_iff, herase]
    split <;> simp_all
  · rw [Function.update_of_ne hk, herase]
    split <;> simp_all

/-- **A user who moves.** -/
theorem Housed.move (h : s.Housed) (hu : s.index[id]? = some u)
    {mapFrom mapTo : Fin 4} (hfrom : u.home = mapFrom) (hto : u'.home = mapTo)
    (hid : u'.id = id) :
    id ∈ s.users mapFrom ∧
      ((s.migrated mapFrom mapTo id).setUser id u').Housed := by
  subst hfrom
  subst hto
  refine ⟨(h.housed _ _).mpr ⟨u, hu, rfl⟩, fun k id' => ?_, fun id' v hv => ?_⟩
  · rw [index_setUser]
    refine (mem_migrated s u.home u'.home k id id').trans ?_
    by_cases heq : id = id'
    · subst heq
      rw [if_pos rfl, if_pos rfl, h.housed]
      simp only [hu, Option.some.injEq, exists_eq_left']
      constructor
      · rintro (rfl | ⟨hne, rfl⟩)
        · rfl
        · exact absurd rfl hne
      · rintro rfl
        exact .inl rfl
    · rw [if_neg heq, if_neg heq]
      exact h.housed k id'
  · rw [index_setUser] at hv
    split at hv
    · next heq =>
      cases hv
      exact heq ▸ hid
    · exact h.keyed id' v hv

theorem Housed.mem_idsOf (h : s.Housed) {mapIndexes : List (Fin 4)} :
    id ∈ s.idsOf mapIndexes ↔
      ∃ u, s.index[id]? = some u ∧ u.home ∈ mapIndexes := by
  simp only [idsOf, List.mem_flatMap, Std.TreeSet.mem_toList, h.housed]
  constructor
  · rintro ⟨k, hk, u, hu, rfl⟩
    exact ⟨u, hu, hk⟩
  · rintro ⟨u, hu, hk⟩
    exact ⟨u.home, hk, u, hu, rfl⟩

theorem nodup_toList (t : Std.TreeSet IdT) : t.toList.Nodup := by
  refine Std.TreeSet.distinct_toList.imp ?_
  rintro a b hab rfl
  exact hab (compare_eq_iff.mpr rfl)

theorem Housed.nodup_idsOf (h : s.Housed) {mapIndexes : List (Fin 4)}
    (hnodup : mapIndexes.Nodup) : (s.idsOf mapIndexes).Nodup := by
  refine List.nodup_flatMap.mpr ⟨fun k _ => nodup_toList _, ?_⟩
  refine hnodup.imp ?_
  intro k k' hne id hid hid'
  rw [Std.TreeSet.mem_toList, h.housed] at hid hid'
  obtain ⟨u, hu, rfl⟩ := hid
  obtain ⟨u', hu', rfl⟩ := hid'
  exact hne (by rw [Option.some_inj.mp (hu.symm.trans hu')])

/-! The operations keep the maps in agreement with the index. -/

/-- Only this user's object is another one. -/
structure Becomes (s : UserDataStorage dm) (id : IdT) (u' : FullUserDataEx dm)
    (s' : UserDataStorage dm) : Prop where
  index : ∀ k : IdT, s'.index[k]? = if id = k then some u' else s.index[k]?
  rating : s'.rating = s.rating
  report : s'.report = s.report

theorem Becomes.self (h : s.Becomes id u' s') : s'.index[id]? = some u' := by
  rw [h.index, if_pos rfl]

theorem Becomes.other (h : s.Becomes id u' s') {k : IdT} (hne : k ≠ id) :
    s'.index[k]? = s.index[k]? := by
  rw [h.index, if_neg (Ne.symm hne)]

theorem becomes_emplaceUser (hid : s.index[id]? = none) (name : BufferT) :
    s.Becomes id { id, name } (s.emplaceUser id name) := by
  refine ⟨fun k => ?_, rfl, rfl⟩
  dsimp only [emplaceUser]
  rw [getElem?_insertIfNew]
  by_cases heq : id = k
  · subst heq
    rw [if_pos rfl, if_pos rfl, hid, Option.getD_none]
  · rw [if_neg heq, if_neg heq]

theorem Housed.emplaceUser (h : s.Housed) (hid : s.index[id]? = none)
    (name : BufferT) : (s.emplaceUser id name).Housed := by
  have hindex := (becomes_emplaceUser hid name).index
  refine ⟨fun k id' => ?_, fun id' v hv => ?_⟩
  · rw [hindex]
    have hmem : id' ∈ (s.emplaceUser id name).users k ↔
        k = 3 ∧ id = id' ∨ id' ∈ s.users k := by
      dsimp only [UserDataStorage.emplaceUser]
      by_cases hk : k = 3
      · subst hk
        rw [Function.update_self, Std.TreeSet.mem_insert, compare_eq_iff]
        simp
      · simp [hk]
    rw [hmem, h.housed]
    by_cases heq : id = id'
    · subst heq
      rw [if_pos rfl, hid]
      simp only [Option.some.injEq, exists_eq_left', home_new, reduceCtorEq,
        false_and, exists_false, and_true, or_false]
      exact eq_comm
    · simp [heq]
  · rw [hindex] at hv
    split at hv
    · next heq =>
      cases hv
      exact heq
    · exact h.keyed id' v hv

theorem becomes_setUser (s : UserDataStorage dm) (id : IdT)
    (u' : FullUserDataEx dm) : s.Becomes id u' (s.setUser id u') :=
  ⟨index_setUser s id u', rfl, rfl⟩

theorem becomes_move (s : UserDataStorage dm) (mapFrom mapTo : Fin 4)
    (id : IdT) (u' : FullUserDataEx dm) :
    s.Becomes id u' ((s.migrated mapFrom mapTo id).setUser id u') :=
  ⟨index_setUser s id u', rfl, rfl⟩

theorem Housed.renameUser (h : s.Housed) (hu : s.index[id]? = some u)
    (newName : BufferT) :
    ∃ s', s.renameUser id newName = .ok s' ∧ s'.Housed ∧
      s.Becomes id { u with
        nameList := pushHistory u.nameList u.name
        name := newName } s' := by
  refine ⟨_, ?_, ?_, becomes_setUser s id _⟩
  · rw [UserDataStorage.renameUser, find_of_index hu, ok_bind]
  · exact h.setUser hu rfl (h.keyed id u hu)

theorem Housed.connectUser (h : s.Housed) (hu : s.index[id]? = some u)
    (hdisconnected : u.secondConnected = invalidSecond) {second : ConnectTimeT}
    (hsecond : second ≠ invalidSecond) :
    ∃ s', s.connectUser id second = .ok s' ∧ s'.Housed ∧
      s.Becomes id { u with secondConnected := second } s' := by
  let u' := { u with secondConnected := second }
  by_cases hwon : u.winnings = 0
  · have hto : u'.home = 2 := home_silentConnected hwon hsecond
    obtain ⟨hmem, hmove⟩ := h.move hu
      (home_silentDisconnected hwon hdisconnected) hto (h.keyed id u hu)
    refine ⟨_, ?_, hmove, becomes_move s 3 2 id _⟩
    rw [UserDataStorage.connectUser, find_of_index hu, ok_bind,
      if_neg (not_not.mpr hwon)]
    exact findAndMigrate_of_mem 2 hmem
  · have hto : u'.home = 0 := home_activeConnected hwon hsecond
    obtain ⟨hmem, hmove⟩ := h.move hu
      (home_activeDisconnected hwon hdisconnected) hto (h.keyed id u hu)
    refine ⟨_, ?_, hmove, becomes_move s 1 0 id _⟩
    rw [UserDataStorage.connectUser, find_of_index hu, ok_bind, if_pos hwon]
    exact findAndMigrate_of_mem 0 hmem

theorem Housed.disconnectUser (h : s.Housed) (hu : s.index[id]? = some u)
    (hconnected : u.secondConnected ≠ invalidSecond) :
    ∃ s', s.disconnectUser id = .ok s' ∧ s'.Housed ∧
      s.Becomes id { u with
        secondConnected := invalidSecond
        ratingReceived := u.winnings = 0 && u.ratingReceived } s' := by
  let u' := { u with secondConnected := invalidSecond }
  by_cases hwon : u.winnings = 0
  · have hto : u'.home = 3 := home_silentDisconnected hwon rfl
    obtain ⟨hmem, hmove⟩ := h.move hu (home_silentConnected hwon hconnected)
      hto (h.keyed id u hu)
    have hreceived : (u.winnings = 0 && u.ratingReceived) =
        u.ratingReceived := by
      rw [decide_eq_true hwon, Bool.true_and]
    rw [hreceived]
    refine ⟨_, ?_, hmove, becomes_move s 2 3 id _⟩
    rw [UserDataStorage.disconnectUser, find_of_index hu, ok_bind,
      if_neg (not_not.mpr hwon)]
    exact findAndMigrate_of_mem 3 hmem
  · have hto : u'.home = 1 := home_activeDisconnected hwon rfl
    obtain ⟨hmem, hmove⟩ := h.move hu (home_activeConnected hwon hconnected)
      hto (h.keyed id u hu)
    have hreceived : (u.winnings = 0 && u.ratingReceived) = false := by
      rw [decide_eq_false hwon, Bool.false_and]
    have hindex : ((s.migrated 0 1 id).setUser id u').index[id]? = some u' := by
      rw [index_setUser, if_pos rfl]
    let last := { u' with ratingReceived := false }
    have hlast : (((s.migrated 0 1 id).setUser id u').setUser id last).Housed :=
      hmove.setUser hindex rfl (h.keyed id u hu)
    rw [hreceived]
    refine ⟨_, ?_, hlast, ?_, rfl, rfl⟩
    · have hmem' : id ∈ (s.setUser id u').users 0 := hmem
      rw [UserDataStorage.disconnectUser, find_of_index hu, ok_bind,
        if_pos hwon]
      dsimp only
      rw [findAndMigrate_of_mem 1 hmem', ok_bind]
      rfl
    · intro k
      rw [index_setUser, index_setUser]
      split <;> rfl

theorem Housed.fixUserWinnings (h : s.Housed) (hu : s.index[id]? = some u)
    {winnings : MonetaryT dm} (hwinnings : u.winnings + winnings ≠ 0) :
    ∃ s', s.fixUserWinnings id winnings = .ok s' ∧ s'.Housed ∧
      s.Becomes id { u with
        winningsHistory := pushHistory u.winningsHistory u.winnings
        winnings := u.winnings + winnings } s' := by
  let u' := { u with
    winningsHistory := pushHistory u.winningsHistory u.winnings
    winnings := u.winnings + winnings }
  by_cases hwon : u.winnings = 0
  · by_cases hdisconnected : u.secondConnected = invalidSecond
    · have hto : u'.home = 1 := home_activeDisconnected hwinnings hdisconnected
      obtain ⟨hmem, hmove⟩ := h.move hu
        (home_silentDisconnected hwon hdisconnected) hto (h.keyed id u hu)
      refine ⟨_, ?_, hmove, becomes_move s 3 1 id _⟩
      rw [UserDataStorage.fixUserWinnings, find_of_index hu, ok_bind,
        if_pos hwon, if_pos hdisconnected, findAndMigrate_of_mem 1 hmem,
        ok_bind]
    · have hto : u'.home = 0 := home_activeConnected hwinnings hdisconnected
      obtain ⟨hmem, hmove⟩ := h.move hu
        (home_silentConnected hwon hdisconnected) hto (h.keyed id u hu)
      refine ⟨_, ?_, hmove, becomes_move s 2 0 id _⟩
      rw [UserDataStorage.fixUserWinnings, find_of_index hu, ok_bind,
        if_pos hwon, if_neg hdisconnected, findAndMigrate_of_mem 0 hmem,
        ok_bind]
  · have hhome : u'.home = u.home := by
      rw [FullUserDataEx.home, FullUserDataEx.home, if_pos hwinnings,
        if_pos hwon]
    refine ⟨_, ?_, h.setUser hu hhome (h.keyed id u hu),
      becomes_setUser s id _⟩
    rw [UserDataStorage.fixUserWinnings, find_of_index hu, ok_bind,
      if_neg hwon, ok_bind]

/-! A draw walks over the maps as over one list. -/

theorem idsOf_cons (s : UserDataStorage dm) (mi : Fin 4)
    (mapIndexes : List (Fin 4)) :
    s.idsOf (mi :: mapIndexes) =
      (s.users mi).toList ++ s.idsOf mapIndexes := by
  rw [idsOf, List.flatMap_cons]
  rfl

theorem length_idsOf (s : UserDataStorage dm) (mapIndexes : List (Fin 4)) :
    (s.idsOf mapIndexes).length = s.getCumulativeSize mapIndexes := by
  rw [idsOf, List.length_flatMap, getCumulativeSize]
  simp only [Std.TreeSet.length_toList]

theorem getUserByIndex_eq (s : UserDataStorage dm)
    (mapIndexes : List (Fin 4)) (userIndex : ℕ) :
    s.getUserByIndex mapIndexes userIndex =
      match (s.idsOf mapIndexes)[userIndex]? with
      | some id => .ok id
      | none => .error .assertion := by
  induction mapIndexes generalizing userIndex with
  | nil => rfl
  | cons mi mapIndexes ih =>
      rw [getUserByIndex, idsOf_cons, List.getElem?_append,
        Std.TreeSet.length_toList]
      by_cases hge : userIndex ≥ (s.users mi).size
      · rw [if_pos hge, if_neg (Nat.not_lt.mpr hge)]
        exact ih _
      · rw [if_neg hge, if_pos (Nat.lt_of_not_le hge)]

/-- **A draw** within the range of the distribution finds a user of one of the
selected maps. -/
theorem Housed.getRandomUser (h : s.Housed) {userFlags : UserFlags}
    {index : ℕ} (hdraw : s.CanDraw userFlags index) :
    ∃ id u, s.getRandomUser userFlags index = .ok id ∧
      s.index[id]? = some u ∧ u.home ∈ selectedMaps userFlags := by
  rw [CanDraw, ← length_idsOf] at hdraw
  have hmem := List.getElem_mem hdraw
  obtain ⟨u, hu, hhome⟩ := h.mem_idsOf.mp hmem
  refine ⟨_, u, ?_, hu, hhome⟩
  rw [UserDataStorage.getRandomUser, getUserByIndex_eq,
    List.getElem?_eq_getElem hdraw]

/-! ## §6  The rating of the users -/

theorem ratingBuilder_perm (s : UserDataStorage dm) (ids : List IdT)
    (map : RatingMultimap dm) :
    (ids.foldl (fun map id => map.emplace ((s.user id).winnings, id)) map).Perm
      (ids.map (fun id => ((s.user id).winnings, id)) ++ map) := by
  induction ids generalizing map with
  | nil => exact .refl _
  | cons id ids ih =>
      rw [List.foldl_cons, List.map_cons, List.cons_append]
      refine (ih _).trans (((List.perm_orderedInsert _ _ map).append_left
        _).trans List.perm_middle)

def Descends (map : RatingMultimap dm) : Prop :=
  map.Pairwise fun a b => b.1.toInt ≤ a.1.toInt

theorem descends_emplace {map : RatingMultimap dm} (h : Descends map)
    (entry : MonetaryT dm × IdT) : Descends (map.emplace entry) := by
  refine pairwise_orderedInsert (fun a b c hab hbc => hbc.trans hab) h
    (fun b _ hlt => hlt.le) (fun b _ hge => not_lt.mp hge)

theorem descends_ratingBuilder (s : UserDataStorage dm) :
    Descends s.ratingBuilder :=
  KeyedFold.foldl_invariant Descends (fun _ _ h => descends_emplace h _) _ _
    List.Pairwise.nil

/-- **The rating is that of the users**: those with winnings, once each, in
descending order, and each user knows his place. -/
structure Ranked (s : UserDataStorage dm) : Prop where
  mem : ∀ id : IdT, id ∈ s.rating ↔ (s.user id).winnings ≠ 0
  nodup : s.rating.Nodup
  sorted : s.rating.Pairwise fun id id' =>
    (s.user id').winnings.toInt ≤ (s.user id).winnings.toInt
  place : ∀ (i : ℕ) (id : IdT), s.rating[i]? = some id →
    (s.user id).rating = i
  unplaced : ∀ id : IdT, (s.user id).winnings = 0 →
    (s.user id).rating = invalidRating

theorem ranked_empty : ({} : UserDataStorage dm).Ranked where
  mem := by simp [user]
  nodup := List.nodup_nil
  sorted := List.Pairwise.nil
  place := by simp
  unplaced := by simp [user]

theorem Ranked.congr (h : s.Ranked) (hrating : s'.rating = s.rating)
    (husers : ∀ id : IdT, (s'.user id).winnings = (s.user id).winnings ∧
      (s'.user id).rating = (s.user id).rating) : s'.Ranked where
  mem id := by rw [hrating, h.mem, (husers id).1]
  nodup := by
    rw [hrating]
    exact h.nodup
  sorted := by
    rw [hrating]
    refine h.sorted.imp fun {id id'} hle => ?_
    rw [(husers id).1, (husers id').1]
    exact hle
  place i id hi := by
    rw [hrating] at hi
    rw [(husers id).2]
    exact h.place i id hi
  unplaced id hwon := by
    rw [(husers id).1] at hwon
    rw [(husers id).2]
    exact h.unplaced id hwon

theorem Becomes.user (h : s.Becomes id u' s') (k : IdT) :
    s'.user k = if id = k then u' else s.user k := by
  rw [UserDataStorage.user, UserDataStorage.user,
    Std.TreeMap.getD_eq_getD_getElem?, Std.TreeMap.getD_eq_getD_getElem?,
    h.index]
  split <;> rfl

theorem Ranked.becomes (h : s.Ranked) (hs : s.Becomes id u' s')
    (hwinnings : u'.winnings = (s.user id).winnings)
    (hrating : u'.rating = (s.user id).rating) : s'.Ranked := by
  refine h.congr hs.rating fun k => ?_
  rw [hs.user]
  split
  · next heq =>
    subst heq
    exact ⟨hwinnings, hrating⟩
  · exact ⟨rfl, rfl⟩

theorem index_setRatings {E : Type} (key : E → IdT) (place : E → ℤ)
    (l : List E) (hnodup : (l.map key).Nodup) (s : UserDataStorage dm) :
    (∀ e ∈ l, (l.foldl (fun s e => s.setRating (key e) (place e)) s).index[
        key e]? = some { s.user (key e) with rating := place e }) ∧
      ∀ id, id ∉ l.map key →
        (l.foldl (fun s e => s.setRating (key e) (place e)) s).index[id]? =
          s.index[id]? := by
  have hself : ∀ (s : UserDataStorage dm) (e : E),
      (s.setRating (key e) (place e)).index[key e]? =
        some { s.index[key e]?.getD {} with rating := place e } := by
    intro s e
    rw [setRating, index_setUser, if_pos rfl, user,
      Std.TreeMap.getD_eq_getD_getElem?]
  have hother : ∀ (s : UserDataStorage dm) (e : E) (id : IdT), id ≠ key e →
      (s.setRating (key e) (place e)).index[id]? = s.index[id]? := by
    intro s e id hne
    rw [setRating, index_setUser, if_neg (Ne.symm hne)]
  obtain ⟨hin, hout⟩ := KeyedFold.foldl_view key
    (fun (s : UserDataStorage dm) (id : IdT) => s.index[id]?)
    (fun e before after => after = some { before.getD {} with rating := place e })
    hself hother l s hnodup
  refine ⟨fun e he => ?_, hout⟩
  rw [hin e he, user, Std.TreeMap.getD_eq_getD_getElem?]

theorem frame_setRatings {E : Type} (key : E → IdT) (place : E → ℤ)
    (l : List E) (s : UserDataStorage dm) :
    (l.foldl (fun s e => s.setRating (key e) (place e)) s).users = s.users ∧
      (l.foldl (fun s e => s.setRating (key e) (place e)) s).rating =
        s.rating ∧
      (l.foldl (fun s e => s.setRating (key e) (place e)) s).report =
        s.report := by
  have hstep : ∀ (s' : UserDataStorage dm) (e : E),
      s'.users = s.users ∧ s'.rating = s.rating ∧ s'.report = s.report →
      (s'.setRating (key e) (place e)).users = s.users ∧
        (s'.setRating (key e) (place e)).rating = s.rating ∧
        (s'.setRating (key e) (place e)).report = s.report :=
    fun _ _ h => h
  exact KeyedFold.foldl_invariant
    (fun s' : UserDataStorage dm => s'.users = s.users ∧
      s'.rating = s.rating ∧ s'.report = s.report) hstep l s ⟨rfl, rfl, rfl⟩

/-- The active users are those in the first two maps. -/
theorem home_active : u.home ∈ ([0, 1] : List (Fin 4)) ↔ u.winnings ≠ 0 := by
  rw [FullUserDataEx.home]
  split <;> split <;> simp_all

theorem home_silent : u.home ∈ ([2, 3] : List (Fin 4)) ↔ u.winnings = 0 := by
  rw [FullUserDataEx.home]
  split <;> split <;> simp_all

def placeIn (rating : List IdT) (id : IdT) : ℤ :=
  if id ∈ rating then rating.idxOf id else invalidRating

theorem Housed.index_recalculateRating (h : s.Housed) :
    (s.ratingBuilder.map Prod.snd).Perm (s.idsOf [0, 1]) ∧
      s.recalculateRating.users = s.users ∧
      s.recalculateRating.rating = s.ratingBuilder.map Prod.snd ∧
      s.recalculateRating.report = s.report ∧
      ∀ id : IdT, s.recalculateRating.index[id]? = s.index[id]?.map fun u =>
        { u with rating := placeIn (s.ratingBuilder.map Prod.snd) id } := by
  have hperm : (s.ratingBuilder.map Prod.snd).Perm (s.idsOf [0, 1]) := by
    have hmapped := (s.ratingBuilder_perm (s.idsOf [0, 1]) []).map Prod.snd
    rw [List.append_nil, List.map_map] at hmapped
    exact hmapped.trans (List.Perm.of_eq (List.map_id' _))
  let rating := s.ratingBuilder.map Prod.snd
  let s₁ := rating.zipIdx.foldl (fun s e => s.setRating e.1 e.2)
    { s with rating }
  have hnodup : rating.Nodup :=
    hperm.nodup_iff.mpr (h.nodup_idsOf (by decide))
  have hmem : ∀ id : IdT,
      id ∈ rating ↔ ∃ u, s.index[id]? = some u ∧ u.winnings ≠ 0 := by
    intro id
    rw [hperm.mem_iff, h.mem_idsOf]
    simp only [home_active]
  obtain ⟨husers, hrating, hreport⟩ := frame_setRatings
    (fun e : IdT × ℕ => e.1) (fun e => (e.2 : ℤ)) rating.zipIdx
    { s with rating }
  obtain ⟨hin, hout⟩ := index_setRatings (fun e : IdT × ℕ => e.1)
    (fun e => (e.2 : ℤ)) rating.zipIdx
    (by rw [List.zipIdx_map_fst]; exact hnodup) { s with rating }
  have hids : s₁.idsOf [2, 3] = s.idsOf [2, 3] := by
    rw [idsOf, idsOf, husers]
  have hdef : s.recalculateRating = (s.idsOf [2, 3]).foldl
      (fun s id => s.setRating id invalidRating) s₁ := by
    rw [← hids]
    rfl
  obtain ⟨husers', hrating', hreport'⟩ := frame_setRatings
    (fun id : IdT => id) (fun _ => invalidRating) (s.idsOf [2, 3]) s₁
  obtain ⟨hin', hout'⟩ := index_setRatings (fun id : IdT => id)
    (fun _ => invalidRating) (s.idsOf [2, 3])
    (by rw [List.map_id']; exact h.nodup_idsOf (by decide)) s₁
  rw [hdef]
  refine ⟨hperm, husers'.trans husers, hrating'.trans hrating,
    hreport'.trans hreport, fun id => ?_⟩
  rw [List.map_id'] at hout'
  rw [List.zipIdx_map_fst] at hout
  cases hu : s.index[id]? with
  | none =>
      have hunrated : id ∉ rating := by simp [hmem, hu]
      have hunlisted : id ∉ s.idsOf [2, 3] := by simp [h.mem_idsOf, hu]
      rw [hout' id hunlisted, hout id hunrated]
      exact hu
  | some u =>
      rw [Option.map_some]
      by_cases hwon : u.winnings = 0
      · have hunrated : id ∉ rating := by simp [hmem, hu, hwon]
        have hlisted : id ∈ s.idsOf [2, 3] :=
          h.mem_idsOf.mpr ⟨u, hu, home_silent.mpr hwon⟩
        have hu₁ : s₁.index[id]? = some u := (hout id hunrated).trans hu
        rw [hin' id hlisted, user_of_index hu₁, placeIn, if_neg hunrated]
      · have hrated : id ∈ rating := (hmem id).mpr ⟨u, hu, hwon⟩
        have hunlisted : id ∉ s.idsOf [2, 3] := by
          rw [h.mem_idsOf]
          rintro ⟨v, hv, hhome⟩
          cases hu.symm.trans hv
          exact hwon (home_silent.mp hhome)
        have hplace : (id, rating.idxOf id) ∈ rating.zipIdx :=
          List.mk_mem_zipIdx_iff_getElem?.mpr (List.getElem?_idxOf hrated)
        have hu' : ({ s with rating } : UserDataStorage dm).user id = u :=
          user_of_index hu
        rw [hout' id hunlisted, placeIn, if_pos hrated]
        refine (hin _ hplace).trans ?_
        rw [hu']

/-- **The rating from scratch** is that of the users. -/
theorem Housed.recalculateRating (h : s.Housed) :
    s.recalculateRating.Housed ∧ s.recalculateRating.Ranked := by
  obtain ⟨hperm, husers, hrating, -, hindex⟩ := h.index_recalculateRating
  have huser : ∀ id : IdT, (s.recalculateRating.user id).winnings =
      (s.user id).winnings ∧ ((s.recalculateRating.user id).rating =
        placeIn s.recalculateRating.rating id ∨ s.index[id]? = none ∧
          (s.recalculateRating.user id).rating = invalidRating) := by
    intro id
    rw [user, user, Std.TreeMap.getD_eq_getD_getElem?, hindex,
      Std.TreeMap.getD_eq_getD_getElem?, hrating]
    cases s.index[id]? with
    | none => exact ⟨rfl, .inr ⟨rfl, rfl⟩⟩
    | some u => exact ⟨rfl, .inl rfl⟩
  have hmem : ∀ id : IdT,
      id ∈ s.recalculateRating.rating ↔ (s.user id).winnings ≠ 0 := by
    intro id
    rw [hrating, hperm.mem_iff, h.mem_idsOf]
    simp only [home_active]
    cases hu : s.index[id]? with
    | none => simp [user, Std.TreeMap.getD_eq_getD_getElem?, hu]
    | some u => simp [user_of_index hu]
  have hnodup : s.recalculateRating.rating.Nodup := by
    rw [hrating]
    exact hperm.nodup_iff.mpr (h.nodup_idsOf (by decide))
  refine ⟨⟨fun k id => ?_, fun id u hu => ?_⟩, ⟨fun id => ?_, hnodup, ?_,
    fun i id hi => ?_, fun id hwon => ?_⟩⟩
  · rw [husers, h.housed, hindex]
    cases s.index[id]? <;> simp [FullUserDataEx.home]
  · rw [hindex] at hu
    obtain ⟨v, hv, rfl⟩ := Option.map_eq_some_iff.mp hu
    exact h.keyed id v hv
  · rw [hmem, (huser id).1]
  · have hentry : ∀ e ∈ s.ratingBuilder, e.1 = (s.user e.2).winnings := by
      intro e he
      have hin := (s.ratingBuilder_perm (s.idsOf [0, 1]) []).mem_iff.mp he
      rw [List.append_nil, List.mem_map] at hin
      obtain ⟨id, -, rfl⟩ := hin
      rfl
    rw [hrating, List.pairwise_map]
    refine s.descends_ratingBuilder.imp_of_mem fun {a b} ha hb hab => ?_
    rw [(huser _).1, (huser _).1, ← hentry a ha, ← hentry b hb]
    exact hab
  · have hin := List.mem_of_getElem? hi
    rcases (huser id).2 with hplace | ⟨hnone, -⟩
    · obtain ⟨hlt, rfl⟩ := List.getElem?_eq_some_iff.mp hi
      rw [hplace, placeIn, if_pos hin, hnodup.idxOf_getElem]
    · refine absurd ((hmem id).mp hin) (not_not.mpr ?_)
      rw [user, Std.TreeMap.getD_eq_getD_getElem?, hnone]
      rfl
  · rw [(huser id).1] at hwon
    rcases (huser id).2 with hplace | ⟨-, hinvalid⟩
    · rw [hplace, placeIn, if_neg]
      rw [hmem]
      exact not_not.mpr hwon
    · exact hinvalid

theorem Housed.index_copied (h : newData.Housed) (id : IdT) :
    ((newData.idsOf [0, 1, 2, 3]).foldl
      (fun index id => index.insertIfNew id (newData.user id))
      (∅ : Std.TreeMap IdT (FullUserDataEx dm)))[id]? =
        newData.index[id]? := by
  have hself : ∀ (index : Std.TreeMap IdT (FullUserDataEx dm)) (id : IdT),
      (index.insertIfNew id (newData.user id))[id]? =
        some (index[id]?.getD (newData.user id)) := by
    intro index id
    rw [getElem?_insertIfNew, if_pos rfl]
  have hother : ∀ (index : Std.TreeMap IdT (FullUserDataEx dm))
      (id id' : IdT), id' ≠ id →
        (index.insertIfNew id (newData.user id))[id']? = index[id']? := by
    intro index id id' hne
    rw [getElem?_insertIfNew, if_neg (Ne.symm hne)]
  obtain ⟨hin, hout⟩ := KeyedFold.foldl_view (fun id : IdT => id)
    (fun (index : Std.TreeMap IdT (FullUserDataEx dm)) (id : IdT) => index[id]?)
    (fun id before after => after = some (before.getD (newData.user id)))
    hself hother (newData.idsOf [0, 1, 2, 3]) ∅
    (by rw [List.map_id']; exact h.nodup_idsOf (by decide))
  rw [List.map_id'] at hout
  by_cases hmem : id ∈ newData.idsOf [0, 1, 2, 3]
  · obtain ⟨u, hu, -⟩ := h.mem_idsOf.mp hmem
    refine (hin id hmem).trans ?_
    rw [Std.TreeMap.getElem?_emptyc, Option.getD_none, user_of_index hu, hu]
  · refine (hout id hmem).trans ?_
    rw [Std.TreeMap.getElem?_emptyc]
    rw [h.mem_idsOf] at hmem
    cases hu : newData.index[id]? with
    | none => rfl
    | some u =>
        refine absurd ⟨u, hu, ?_⟩ hmem
        generalize u.home = k
        revert k
        decide

/-- **The next minute**: the storage has the users of the other one, and the
rating they have. -/
theorem Housed.setNextMinuteData (h : newData.Housed)
    (s : UserDataStorage dm) :
    (s.setNextMinuteData newData).Housed ∧
      (s.setNextMinuteData newData).Ranked ∧
      (s.setNextMinuteData newData).report = {} ∧
      ∀ id : IdT, (s.setNextMinuteData newData).index[id]? =
        newData.index[id]?.map fun u =>
          { u with rating :=
              (placeIn (s.setNextMinuteData newData).rating id) } := by
  let copied : UserDataStorage dm := { s with
    users := newData.users
    index := (newData.idsOf [0, 1, 2, 3]).foldl
      (fun index id => index.insertIfNew id (newData.user id)) ∅
    report := {} }
  have hindex : ∀ id : IdT, copied.index[id]? = newData.index[id]? :=
    h.index_copied
  have hcopied : copied.Housed := by
    refine ⟨fun k id => ?_, fun id u hu => h.keyed id u (hindex id ▸ hu)⟩
    rw [hindex]
    exact h.housed k id
  obtain ⟨hhoused, hranked⟩ := hcopied.recalculateRating
  obtain ⟨-, -, hrating, hreport, hplaced⟩ := hcopied.index_recalculateRating
  refine ⟨hhoused, hranked, hreport, fun id => ?_⟩
  rw [← hindex id]
  exact (hplaced id).trans (by rw [← hrating]; rfl)

end UserDataStorage

end RatingService
