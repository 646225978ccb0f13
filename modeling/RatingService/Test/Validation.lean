import RatingService.Test.Responses
import RatingService.Test.Storage

/-!
# The client's verdict

`UserDataStorage::Impl::validateRating` and `validateError` of
`test/storage.cpp`: a response is compared with the client's own users, and
the report counts what does not fit.

- §1: one entry.
- §2: a rating.
- §3: an error.
- §4: what any response leaves as it is.
- §5: ratings and errors that are found valid.
-/

namespace RatingService

open ProtocolConstants

variable {dm : DataModel}

namespace UserDataStorage

/-! ## §1  One entry -/

def note (s : UserDataStorage dm)
    (change : ValidationReport → ValidationReport) : UserDataStorage dm :=
  { s with report := change s.report }

def validateSingleRating (s : UserDataStorage dm) (rating : RatingEntry dm)
    (expectedPlace : ℤ) : Int32 × UserDataStorage dm :=
  match s.index[rating.id]? with
  | none => (1, s)
  | some userData =>
      let result : Int32 := 0
      let result :=
        if userData.rating ≠ expectedPlace then result ||| 2 else result
      let (result, s) :=
        if userData.winnings ≠ rating.winnings then
          if rating.winnings ∈ userData.winningsHistory then
            (result &&& ~~~2, s.note fun report => { report with
              outdatedWinnings := report.outdatedWinnings + 1 })
          else (result ||| 4, s)
        else (result, s)
      let result :=
        if userData.name ≠ rating.name then
          if rating.name ∉ userData.nameList then result ||| 8 else result
        else result
      (result, s)

/-! ## §2  A rating -/

/-- The storage and `failure`, which the checks pass on. -/
structure Verdict (dm : DataModel) where
  storage : UserDataStorage dm
  failure : Bool := false

/-- `failure = true`, and one more in a counter. -/
def Verdict.fail (v : Verdict dm)
    (change : ValidationReport → ValidationReport) : Verdict dm :=
  { storage := v.storage.note change, failure := true }

def checkSize (rating : RatingPackMessage dm) (v : Verdict dm) : Verdict dm :=
  if rating.ratingLength.toInt ≠ v.storage.rating.length then
    v.fail fun report =>
      { report with ratingSizeWrong := report.ratingSizeWrong + 1 }
  else v

def checkPlace (rating : RatingPackMessage dm) (v : Verdict dm) : Verdict dm :=
  match v.storage.index[rating.userId]? with
  | some userData =>
      let v := { v with storage :=
        (v.storage.setUser rating.userId
          { userData with ratingReceived := true }) }
      let wrong := v.fail fun report =>
        { report with userPositionWrong := report.userPositionWrong + 1 }
      -- a user added after the rating was made has no place in it
      if userData.rating ≠ invalidRating then
        if userData.rating ≠ rating.ratingPos.toInt then wrong else v
      else if rating.ratingPos ≠ rating.ratingLength then wrong
      else v
  | none => v.fail fun report =>
      { report with userNotFound := report.userNotFound + 1 }

def checkEntry (change : ValidationReport → ValidationReport)
    (v : Verdict dm) (entry : RatingEntry dm × ℤ) : Verdict dm :=
  let (result, storage) := v.storage.validateSingleRating entry.1 entry.2
  let v := { v with storage }
  if result ≠ 0 then v.fail change else v

/-- The entries from a place on, each with the place it should have. -/
def placed (entries : List (RatingEntry dm)) (place : ℤ) :
    List (RatingEntry dm × ℤ) :=
  entries.zipIdx.map fun e => (e.1, place + e.2)

def checkTop (rating : RatingPackMessage dm) (v : Verdict dm) : Verdict dm :=
  (placed (rating.ratings.take topPositions.toNat) 0).foldl
    (checkEntry fun report =>
      { report with topPositionsWrong := report.topPositionsWrong + 1 }) v

def checkSurroundings (rating : RatingPackMessage dm) (v : Verdict dm) :
    Verdict dm :=
  if rating.ratingLength.toInt > topPositions then
    (placed (rating.ratings.drop topPositions.toNat)
        (max topPositions (rating.ratingPos.toInt - competitionDistance))).foldl
      (checkEntry fun report =>
        { report with surroundingsWrong := report.surroundingsWrong + 1 }) v
  else v

def validateRating (s : UserDataStorage dm) (rating : RatingPackMessage dm) :
    UserDataStorage dm :=
  let s := s.note fun report =>
    { report with incomingRatings := report.incomingRatings + 1 }
  if rating.userId.toInt < 0 ∨ s.index.size ≤ rating.userId.toInt then
    s.note fun report => { report with
      ratingFullyMessed := report.ratingFullyMessed + 1
      failures := report.failures + 1 }
  else
    let v := checkSurroundings rating (checkTop rating
      (checkPlace rating (checkSize rating { storage := s })))
    if v.failure then v.storage.note fun report =>
      { report with failures := report.failures + 1 }
    else v.storage.note fun report =>
      { report with validRatings := report.validRatings + 1 }

/-! ## §3  An error -/

def validateError (s : UserDataStorage dm) (error : GenericProtocolError) :
    Outcome (UserDataStorage dm) :=
  let s := s.note fun report =>
    { report with incomingErrors := report.incomingErrors + 1 }
  let failed := s.note fun report =>
    { report with failures := report.failures + 1 }
  match error with
  | .multipleRegistration _ => .ok failed
  | .userUnrecognized userId =>
      if userId.toInt < 0 then
        .ok (s.note fun report =>
          { report with validErrors := report.validErrors + 1 })
      else .ok failed
  | .unsupportedProtocolVersion _ => .error .assertion

/-- What `processResponses` does with a response. -/
def validate (s : UserDataStorage dm) :
    Response dm → Outcome (UserDataStorage dm)
  | .rating rating => .ok (s.validateRating rating)
  | .error error => s.validateError error

end UserDataStorage

/-! ## §4  Any response -/

/-- `processResponses` throws at the error about the version. -/
def Response.Passed : Response dm → Prop
  | .error (.unsupportedProtocolVersion _) => False
  | _ => True

instance (response : Response dm) : Decidable response.Passed :=
  match response with
  | .rating _ => .isTrue trivial
  | .error (.userUnrecognized _) => .isTrue trivial
  | .error (.multipleRegistration _) => .isTrue trivial
  | .error (.unsupportedProtocolVersion _) => .isFalse id

/-- Only such responses reach the storage. -/
theorem ResponseReader.interpret_passed {rating rating' : RatingPackMessage dm}
    {buffer : BinaryIStream} {response : Response dm}
    (h : interpret rating buffer = .ok (some response, rating')) :
    response.Passed := by
  obtain ⟨⟨mc, buffer⟩, -, h⟩ := bind_eq_ok.mp h
  dsimp only at h
  split at h
  · obtain ⟨_, -, h⟩ := bind_eq_ok.mp h
    cases h
    trivial
  · split at h
    · obtain ⟨⟨ec, buffer⟩, -, h⟩ := bind_eq_ok.mp h
      dsimp only at h
      split at h
      · obtain ⟨_, -, h⟩ := bind_eq_ok.mp h
        cases h
      · split at h
        · obtain ⟨⟨error, _⟩, herror, h⟩ := bind_eq_ok.mp h
          obtain ⟨_, -, herror⟩ := bind_eq_ok.mp herror
          cases herror
          cases h
          trivial
        · split at h
          · obtain ⟨⟨error, _⟩, herror, h⟩ := bind_eq_ok.mp h
            obtain ⟨_, -, herror⟩ := bind_eq_ok.mp herror
            cases herror
            cases h
            trivial
          · cases h
    · cases h

namespace UserDataStorage

/-- **What a response may change**: the report, and of a user that his rating
was received. -/
structure Received (s s' : UserDataStorage dm) : Prop where
  users : s'.users = s.users
  rating : s'.rating = s.rating
  index : ∀ id : IdT, Option.Rel (fun u' u : FullUserDataEx dm =>
    ∃ ratingReceived, u' = { u with ratingReceived }) s'.index[id]? s.index[id]?

section Received

variable {s s' : UserDataStorage dm}

theorem received_of_index (husers : s'.users = s.users)
    (hrating : s'.rating = s.rating) (hindex : s'.index = s.index) :
    s.Received s' := by
  refine ⟨husers, hrating, fun id => ?_⟩
  rw [hindex]
  cases s.index[id]? with
  | none => exact .none
  | some u => exact .some ⟨u.ratingReceived, rfl⟩

theorem received_self (s : UserDataStorage dm) : s.Received s :=
  received_of_index rfl rfl rfl

theorem Received.note (h : s.Received s')
    (change : ValidationReport → ValidationReport) :
    s.Received (s'.note change) :=
  ⟨h.users, h.rating, h.index⟩

theorem Received.fail {v : Verdict dm} (h : s.Received v.storage)
    (change : ValidationReport → ValidationReport) :
    s.Received (v.fail change).storage :=
  ⟨h.users, h.rating, h.index⟩

theorem Received.trans {s'' : UserDataStorage dm} (h : s.Received s')
    (h' : s'.Received s'') : s.Received s'' := by
  refine ⟨h'.users.trans h.users, h'.rating.trans h.rating, fun id => ?_⟩
  have hrel := h.index id
  have hrel' := h'.index id
  cases hu : s.index[id]? <;> cases hu' : s'.index[id]? <;>
    cases hu'' : s''.index[id]? <;> rw [hu, hu'] at hrel <;>
    rw [hu', hu''] at hrel'
  · exact .none
  all_goals try (cases hrel; done)
  all_goals try (cases hrel'; done)
  obtain ⟨_, rfl⟩ := Option.rel_some_some.mp hrel
  obtain ⟨received, rfl⟩ := Option.rel_some_some.mp hrel'
  exact .some ⟨received, rfl⟩

theorem received_setUser {id : IdT} {u : FullUserDataEx dm}
    (hu : s.index[id]? = some u) (ratingReceived : Bool) :
    s.Received (s.setUser id { u with ratingReceived }) := by
  refine ⟨rfl, rfl, fun k => ?_⟩
  rw [index_setUser]
  split
  · next heq =>
    rw [← heq, hu]
    exact .some ⟨ratingReceived, rfl⟩
  · cases s.index[k]? with
    | none => exact .none
    | some v => exact .some ⟨v.ratingReceived, rfl⟩

theorem Received.back (h : s.Received s') {id : IdT} {u' : FullUserDataEx dm}
    (hu' : s'.index[id]? = some u') :
    ∃ u ratingReceived, s.index[id]? = some u ∧
      u' = { u with ratingReceived } := by
  have hrel := h.index id
  rw [hu'] at hrel
  cases hu : s.index[id]? with
  | none =>
      rw [hu] at hrel
      cases hrel
  | some u =>
      rw [hu] at hrel
      obtain ⟨received, heq⟩ := Option.rel_some_some.mp hrel
      exact ⟨u, received, rfl, heq⟩

theorem Received.forth (h : s.Received s') {id : IdT} {u : FullUserDataEx dm}
    (hu : s.index[id]? = some u) :
    ∃ ratingReceived, s'.index[id]? = some { u with ratingReceived } := by
  have hrel := h.index id
  rw [hu] at hrel
  cases hu' : s'.index[id]? with
  | none =>
      rw [hu'] at hrel
      cases hrel
  | some u' =>
      rw [hu'] at hrel
      obtain ⟨received, rfl⟩ := Option.rel_some_some.mp hrel
      exact ⟨received, rfl⟩

theorem Received.housed (h : s.Received s') (hs : s.Housed) : s'.Housed := by
  constructor
  · intro k id
    rw [h.users, hs.housed]
    constructor
    · rintro ⟨u, hu, rfl⟩
      obtain ⟨_, hu'⟩ := h.forth hu
      exact ⟨_, hu', rfl⟩
    · rintro ⟨u', hu', rfl⟩
      obtain ⟨u, _, hu, rfl⟩ := h.back hu'
      exact ⟨u, hu, rfl⟩
  · intro id u' hu'
    obtain ⟨u, _, hu, rfl⟩ := h.back hu'
    exact hs.keyed id u hu

theorem Received.ranked (h : s.Received s') (hs : s.Ranked) : s'.Ranked := by
  refine hs.congr h.rating fun id => ?_
  have hrel := h.index id
  rw [user, user, Std.TreeMap.getD_eq_getD_getElem?,
    Std.TreeMap.getD_eq_getD_getElem?]
  cases hu : s.index[id]? <;> cases hu' : s'.index[id]? <;>
    rw [hu, hu'] at hrel
  · exact ⟨rfl, rfl⟩
  · cases hrel
  · cases hrel
  · obtain ⟨received, rfl⟩ := Option.rel_some_some.mp hrel
    exact ⟨rfl, rfl⟩

theorem received_validateSingleRating (s : UserDataStorage dm)
    (entry : RatingEntry dm) (place : ℤ) :
    s.Received (s.validateSingleRating entry place).2 := by
  rw [validateSingleRating]
  split
  · exact s.received_self
  · dsimp only
    split
    · split
      · exact received_of_index rfl rfl rfl
      · exact s.received_self
    · exact s.received_self

theorem received_checkEntry (change : ValidationReport → ValidationReport)
    (v : Verdict dm) (entry : RatingEntry dm × ℤ) :
    v.storage.Received (checkEntry change v entry).storage := by
  have hentry := received_validateSingleRating v.storage entry.1 entry.2
  rw [checkEntry]
  dsimp only
  split
  · exact hentry.note change
  · exact hentry

theorem received_foldl_checkEntry
    (change : ValidationReport → ValidationReport)
    (entries : List (RatingEntry dm × ℤ)) (v : Verdict dm) :
    v.storage.Received (entries.foldl (checkEntry change) v).storage := by
  induction entries generalizing v with
  | nil => exact v.storage.received_self
  | cons entry entries ih =>
      exact (received_checkEntry change v entry).trans (ih _)

theorem received_checkSize (rating : RatingPackMessage dm) (v : Verdict dm) :
    v.storage.Received (checkSize rating v).storage := by
  rw [checkSize]
  split
  · exact v.storage.received_self.fail _
  · exact v.storage.received_self

theorem received_checkPlace (rating : RatingPackMessage dm) (v : Verdict dm) :
    v.storage.Received (checkPlace rating v).storage := by
  rw [checkPlace]
  split
  · next u hu =>
    have hset := received_setUser hu true
    dsimp only
    split
    · split
      · exact ⟨hset.users, hset.rating, hset.index⟩
      · exact hset
    · split
      · exact ⟨hset.users, hset.rating, hset.index⟩
      · exact hset
  · exact v.storage.received_self.fail _

theorem received_checkSurroundings (rating : RatingPackMessage dm)
    (v : Verdict dm) :
    v.storage.Received (checkSurroundings rating v).storage := by
  rw [checkSurroundings]
  split
  · exact received_foldl_checkEntry _ _ v
  · exact v.storage.received_self

theorem received_checks (rating : RatingPackMessage dm) (v : Verdict dm) :
    v.storage.Received (checkSurroundings rating (checkTop rating
      (checkPlace rating (checkSize rating v)))).storage :=
  (((received_checkSize rating v).trans (received_checkPlace rating _)).trans
    (received_foldl_checkEntry _ _ _)).trans
      (received_checkSurroundings rating _)

theorem received_validateRating (s : UserDataStorage dm)
    (rating : RatingPackMessage dm) :
    s.Received (s.validateRating rating) := by
  let s₁ := s.note fun report =>
    { report with incomingRatings := report.incomingRatings + 1 }
  have hnoted : s.Received s₁ := received_of_index rfl rfl rfl
  have hchecks := hnoted.trans (received_checks rating { storage := s₁ })
  rw [validateRating]
  dsimp only
  split
  · exact hnoted.note _
  · split
    · exact hchecks.note _
    · exact hchecks.note _

/-- **Any response is validated**, and leaves the storage but for what it may
change. -/
theorem validate_received (s : UserDataStorage dm) {response : Response dm}
    (h : response.Passed) :
    ∃ s', s.validate response = .ok s' ∧ s.Received s' := by
  cases response with
  | rating rating => exact ⟨_, rfl, received_validateRating s rating⟩
  | error error =>
      cases error with
      | unsupportedProtocolVersion version => exact h.elim
      | multipleRegistration userId =>
          exact ⟨_, rfl, received_of_index rfl rfl rfl⟩
      | userUnrecognized userId =>
          rw [validate, validateError]
          split
          · exact ⟨_, rfl, received_of_index rfl rfl rfl⟩
          · exact ⟨_, rfl, received_of_index rfl rfl rfl⟩

/-- What the reader makes of a buffer, the storage takes. -/
theorem interpret_received (s : UserDataStorage dm)
    {rating rating' : RatingPackMessage dm} {buffer : BinaryIStream}
    {response : Response dm}
    (h : ResponseReader.interpret rating buffer =
      .ok (some response, rating')) :
    ∃ s', s.validate response = .ok s' ∧ s.Received s' :=
  s.validate_received (ResponseReader.interpret_passed h)

end Received

end UserDataStorage

/-! ## §5  Valid responses -/

namespace ValidationReport

def ratingValid (report : ValidationReport) : ValidationReport :=
  { report with
    incomingRatings := report.incomingRatings + 1
    validRatings := report.validRatings + 1 }

def errorValid (report : ValidationReport) : ValidationReport :=
  { report with
    incomingErrors := report.incomingErrors + 1
    validErrors := report.validErrors + 1 }

end ValidationReport

namespace UserDataStorage

variable {s s' : UserDataStorage dm}

/-- The entry is what the client expects at the place, but for a name that may
be an older one. -/
def Expects (s : UserDataStorage dm) (entry : RatingEntry dm) (place : ℤ) :
    Prop :=
  ∃ u, s.index[entry.id]? = some u ∧ u.rating = place ∧
    u.winnings = entry.winnings ∧
    (u.name = entry.name ∨ entry.name ∈ u.nameList)

theorem validateSingleRating_expects {entry : RatingEntry dm} {place : ℤ}
    (h : s.Expects entry place) :
    s.validateSingleRating entry place = (0, s) := by
  obtain ⟨u, hu, hplace, hwinnings, hname⟩ := h
  rw [validateSingleRating, hu]
  simp only [hplace, hwinnings, ne_eq, not_true_eq_false, if_false]
  rcases hname with hname | hname
  · simp [hname]
  · simp [hname]

theorem foldl_checkEntry {change : ValidationReport → ValidationReport}
    {entries : List (RatingEntry dm × ℤ)} {v : Verdict dm}
    (h : ∀ e ∈ entries, v.storage.Expects e.1 e.2) :
    entries.foldl (checkEntry change) v = v := by
  induction entries with
  | nil => rfl
  | cons e entries ih =>
      obtain ⟨he, hentries⟩ := List.forall_mem_cons.mp h
      have hentry : checkEntry change v e = v := by
        rw [checkEntry, validateSingleRating_expects he]
        rfl
      rw [List.foldl_cons, hentry]
      exact ih hentries

theorem Expects.setUser {entry : RatingEntry dm} {place : ℤ}
    (h : s.Expects entry place) {id : IdT} {u u' : FullUserDataEx dm}
    (hu : s.index[id]? = some u) (hrating : u'.rating = u.rating)
    (hwinnings : u'.winnings = u.winnings) (hname : u'.name = u.name)
    (hnames : u'.nameList = u.nameList) :
    (s.setUser id u').Expects entry place := by
  obtain ⟨v, hv, hplace, hwon, hnamed⟩ := h
  by_cases heq : id = entry.id
  · subst heq
    cases hu.symm.trans hv
    refine ⟨u', by rw [index_setUser, if_pos rfl], ?_⟩
    rw [hrating, hwinnings, hname, hnames]
    exact ⟨hplace, hwon, hnamed⟩
  · exact ⟨v, by rw [index_setUser, if_neg heq, hv], hplace, hwon, hnamed⟩

/-- **What the client agrees with**: the user is his own, the rating's size and
the user's place are right, and every entry is the expected one. -/
structure Accepts (s : UserDataStorage dm) (rating : RatingPackMessage dm)
    (u : FullUserDataEx dm) : Prop where
  nonneg : 0 ≤ rating.userId.toInt
  lt_size : rating.userId.toInt < s.index.size
  index : s.index[rating.userId]? = some u
  size : rating.ratingLength.toInt = s.rating.length
  place : if u.rating = invalidRating then
    rating.ratingPos = rating.ratingLength else
    u.rating = rating.ratingPos.toInt
  top : ∀ e ∈ placed (rating.ratings.take topPositions.toNat) 0,
    s.Expects e.1 e.2
  surroundings : ∀ e ∈ placed (rating.ratings.drop topPositions.toNat)
    (max topPositions (rating.ratingPos.toInt - competitionDistance)),
    s.Expects e.1 e.2

/-- **A rating the client agrees with is counted as valid**, and nothing else
is. -/
theorem Accepts.validateRating {rating : RatingPackMessage dm}
    {u : FullUserDataEx dm} (h : s.Accepts rating u) :
    s.validateRating rating = { s.setUser rating.userId
      { u with ratingReceived := true } with
        report := s.report.ratingValid } := by
  let received := s.setUser rating.userId { u with ratingReceived := true }
  let s₁ := s.note fun report =>
    { report with incomingRatings := report.incomingRatings + 1 }
  let s₂ := s₁.setUser rating.userId { u with ratingReceived := true }
  have hsize : checkSize rating { storage := s₁ } = { storage := s₁ } :=
    if_neg (not_not.mpr h.size)
  have hplace : checkPlace rating { storage := s₁ } = { storage := s₂ } := by
    have hindex : s₁.index[rating.userId]? = some u := h.index
    have hright := h.place
    rw [checkPlace, hindex]
    dsimp only
    split at hright
    · next hunplaced => rw [if_neg (not_not.mpr hunplaced), if_neg
        (not_not.mpr hright)]
    · next hplaced => rw [if_pos hplaced, if_neg (not_not.mpr hright)]
  have hexpects : ∀ {entry : RatingEntry dm} {place : ℤ},
      s.Expects entry place → s₂.Expects entry place := fun hentry =>
    Expects.setUser (s := s₁) hentry h.index rfl rfl rfl rfl
  have htop : checkTop rating { storage := s₂ } = { storage := s₂ } :=
    foldl_checkEntry fun e he => hexpects (h.top e he)
  have hsurroundings :
      checkSurroundings rating { storage := s₂ } = { storage := s₂ } := by
    rw [checkSurroundings]
    split
    · exact foldl_checkEntry fun e he => hexpects (h.surroundings e he)
    · rfl
  rw [UserDataStorage.validateRating, if_neg]
  · dsimp only
    rw [hsize, hplace, htop, hsurroundings]
    rfl
  · rintro (hneg | hge)
    · exact absurd h.nonneg (not_le.mpr hneg)
    · exact absurd h.lt_size (not_lt.mpr hge)

/-- **An error about a user who cannot exist** is what the client waits for. -/
theorem validateError_fake (s : UserDataStorage dm) {userId : IdT}
    (hfake : userId.toInt < 0) :
    s.validateError (.userUnrecognized userId) =
      .ok { s with report := s.report.errorValid } := by
  rw [validateError, if_pos hfake]
  rfl

end UserDataStorage

end RatingService
