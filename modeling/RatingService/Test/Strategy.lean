import RatingService.Framework.Runs
import RatingService.Test.Validation
import Mathlib.Data.Int.Interval

/-!
# The test client

The main thread of `Strategy::run` (`test/strategy.cpp`): whatever it sends is
entered into two storages. `m_curMinData` has everything; `m_prevMinData`, with
which the responses are compared, gets the deals of a minute when it is over.
The thread of `Strategy::processResponses` has the responses validated; what
the two threads share is `m_prevMinData`, under a lock.

Which messages are sent in which second is drawn at random
(`generateNewDistribution`), as are the users, the winnings and a part of the
names: here they come with the steps. A user is drawn from a group that is not
empty. As to the two functions of the storage that lack their `return`, see
there.

- §1: the client.
- §2: a step of the main thread.
- §3: what a user has won before.
- §4: the storages in step.
- §5: the two threads.
-/

namespace RatingService

variable {dm : DataModel}

/-! ## §1  The client -/

structure Strategy (dm : DataModel) where
  curMinData : UserDataStorage dm := {}
  prevMinData : UserDataStorage dm := {}
  /-- the counter of `generateNewUser` -/
  newUserId : IdT := 0
  /-- the counter of `getFakeUserId` -/
  count : IdT := 0
  /-- none as long as the users of the start are registered -/
  currentSecond : Option ℕ := none
  /-- what `publishValidationReport` has printed -/
  published : List PublishedReport := []

/-- What the main thread does next, with what is drawn for it. -/
inductive StrategyStep (dm : DataModel) where
  | userRegistered (name : BufferT)
  | userRenamed (index : ℕ) (newName : BufferT)
  | userConnected (index : ℕ)
  | userDisconnected (index : ℕ)
  | userDealWon (index : ℕ) (winnings : MonetaryT dm)
  | fakeUser (selectFakeActionType : ℕ)
  /-- the users of the start are registered -/
  | begin (second : Fin 60)
  | nextSecond
  | nextMinute (second : Fin 60)

namespace Strategy

/-! ## §2  A step -/

/-- `"Mr Fake"`. -/
def mrFake : BufferT := [77, 114, 32, 70, 97, 107, 101]

/-- `getFakeUserId`. -/
def fakeId (s : Strategy dm) : IdT :=
  invalidId + s.count

def fakeMessage (s : Strategy dm) : ℕ → Outcome (ClientMessage dm)
  | 1 => .ok (.renamed ⟨⟨s.fakeId⟩, mrFake⟩)
  | 2 => .ok (.connected ⟨s.fakeId⟩)
  | 3 => .ok (.disconnected ⟨s.fakeId⟩)
  | 4 => .ok (.dealWon ⟨⟨s.fakeId⟩, BitVec.ofNat _ 666⟩)
  | _ => .error .assertion

def perform (s : Strategy dm) :
    StrategyStep dm → Outcome (Strategy dm × Option (ClientMessage dm))
  | .userRegistered name => do
      assert (name.length ≤ 255)
      .ok ({ s with
        curMinData := s.curMinData.generateNewUser s.newUserId name
        prevMinData := s.prevMinData.importNewUser s.newUserId name
        newUserId := s.newUserId + 1 },
        some (.registered ⟨⟨s.newUserId⟩, name⟩))
  | .userRenamed index newName => do
      let userId ← s.curMinData.getRandomUser UserFlags.anyone index
      let curMinData ← s.curMinData.renameUser userId newName
      let prevMinData ← s.prevMinData.renameUser userId newName
      assert (newName.length ≤ 255)
      .ok ({ s with curMinData, prevMinData },
        some (.renamed ⟨⟨userId⟩, newName⟩))
  | .userConnected index => do
      let second := UInt8.ofNat (s.currentSecond.getD 0)
      let userId ← s.curMinData.getRandomUser UserFlags.disconnectedAny index
      let curMinData ← s.curMinData.connectUser userId second
      let prevMinData ← s.prevMinData.connectUser userId second
      .ok ({ s with curMinData, prevMinData }, some (.connected ⟨userId⟩))
  | .userDisconnected index => do
      let userId ← s.curMinData.getRandomUser UserFlags.connectedAny index
      let curMinData ← s.curMinData.disconnectUser userId
      let prevMinData ← s.prevMinData.disconnectUser userId
      .ok ({ s with curMinData, prevMinData }, some (.disconnected ⟨userId⟩))
  | .userDealWon index winnings => do
      let userId ← s.curMinData.getRandomUser UserFlags.connectedAny index
      let curMinData ← s.curMinData.fixUserWinnings userId winnings
      .ok ({ s with curMinData }, some (.dealWon ⟨⟨userId⟩, winnings⟩))
  | .fakeUser selectFakeActionType => do
      let message ← s.fakeMessage selectFakeActionType
      .ok ({ s with count := s.count - 1 }, some message)
  | .begin second => .ok ({ s with currentSecond := some second }, none)
  | .nextSecond =>
      .ok ({ s with currentSecond := s.currentSecond.map (· + 1) }, none)
  | .nextMinute second =>
      .ok ({ s with
        currentSecond := some second
        published := s.published ++ [s.prevMinData.publishValidationReport]
        prevMinData := s.prevMinData.setNextMinuteData s.curMinData }, none)

def InMinute (s : Strategy dm) : Prop :=
  ∃ second < 60, s.currentSecond = some second

instance (s : Strategy dm) : Decidable s.InMinute :=
  match hsecond : s.currentSecond with
  | some second => decidable_of_iff (second < 60) <| by
      simp [InMinute, hsecond]
  | none => .isFalse <| by simp [InMinute, hsecond]

/-- **What may come next**, by the main loop and by the ranges of the
distributions. -/
def MayDraw (s : Strategy dm) : StrategyStep dm → Prop
  | .userRegistered name =>
      (s.currentSecond = none ∨ s.InMinute) ∧ name.length ≤ 255
  | .userRenamed index newName =>
      s.InMinute ∧ s.curMinData.CanDraw UserFlags.anyone index ∧
        newName.length ≤ 255
  | .userConnected index =>
      s.InMinute ∧ s.curMinData.CanDraw UserFlags.disconnectedAny index
  | .userDisconnected index =>
      s.InMinute ∧ s.curMinData.CanDraw UserFlags.connectedAny index
  | .userDealWon index winnings =>
      s.InMinute ∧ s.curMinData.CanDraw UserFlags.connectedAny index ∧
        1 ≤ winnings.toInt ∧ winnings.toInt ≤ 500
  | .fakeUser selectFakeActionType =>
      s.InMinute ∧ 1 ≤ selectFakeActionType ∧ selectFakeActionType ≤ 4
  | .begin _ => s.currentSecond = none
  | .nextSecond => s.InMinute
  | .nextMinute _ => s.currentSecond = some 60

instance (s : Strategy dm) (a : StrategyStep dm) : Decidable (s.MayDraw a) := by
  cases a <;> unfold MayDraw <;> infer_instance

def OfDrawn (P : IdT → Prop) : Outcome IdT → Prop
  | .ok id => P id
  | .error _ => True

instance (P : IdT → Prop) [DecidablePred P] (drawn : Outcome IdT) :
    Decidable (OfDrawn P drawn) := by
  cases drawn <;> unfold OfDrawn <;> infer_instance

/-- **The counters and the sums stay in their range**: at most 2^31 - 12
users, fewer than 2^31 made-up ids, and no overflow of a user's winnings. -/
def InRange (s : Strategy dm) : StrategyStep dm → Prop
  | .userRegistered _ => s.newUserId.toInt + 12 < 2 ^ 31
  | .userDealWon index winnings =>
      OfDrawn (fun id => (s.curMinData.user id).winnings.toInt +
          winnings.toInt < 2 ^ (8 * dm.sizeofLong - 1))
        (s.curMinData.getRandomUser UserFlags.connectedAny index)
  | .fakeUser _ => -2 ^ 31 + 1 < s.count.toInt
  | _ => True

instance (s : Strategy dm) (a : StrategyStep dm) : Decidable (s.InRange a) := by
  cases a <;> unfold InRange <;> infer_instance

end Strategy

/-! ## §3  Earlier winnings -/

namespace FullUserDataEx

variable {u u' : FullUserDataEx dm} {winnings : MonetaryT dm}

/-- What a user has had, as far as the storage remembers; the present winnings
come last. -/
def had (u : FullUserDataEx dm) : List (MonetaryT dm) :=
  u.winningsHistory ++ [u.winnings]

def Climbs (u : FullUserDataEx dm) : Prop :=
  u.had.Pairwise fun a b => a.toInt < b.toInt

/-- He has had so much: it is remembered, or more than six deals are, all of
them later. -/
def Remembers (u : FullUserDataEx dm) (winnings : MonetaryT dm) : Prop :=
  winnings ∈ u.had ∨ historyLength < u.had.length ∧
    ∀ later ∈ u.had, winnings.toInt < later.toInt

theorem remembers_self (u : FullUserDataEx dm) : u.Remembers u.winnings :=
  .inl (List.mem_append_right _ (List.mem_singleton_self _))

theorem Climbs.le_winnings (h : u.Climbs) :
    ∀ earlier ∈ u.had, earlier.toInt ≤ u.winnings.toInt := by
  intro earlier hmem
  rcases List.mem_append.mp hmem with hmem | hmem
  · obtain ⟨-, -, hlt⟩ := List.pairwise_append.mp h
    exact (hlt earlier hmem _ (List.mem_singleton_self _)).le
  · rw [List.mem_singleton.mp hmem]

section Deal

/-! A deal; the oldest winnings may be forgotten. -/

variable (hhad : u'.had = (if historyLength < u.had.length then u.had.tail
  else u.had) ++ [u'.winnings]) (hmore : u.winnings.toInt < u'.winnings.toInt)

include hhad hmore

theorem Climbs.deal (h : u.Climbs) : u'.Climbs := by
  have hsub : (if historyLength < u.had.length then u.had.tail
      else u.had).Sublist u.had := by
    split
    · exact List.tail_sublist _
    · exact List.Sublist.refl _
  rw [Climbs, hhad, List.pairwise_append]
  refine ⟨h.sublist hsub, List.pairwise_singleton _ _, ?_⟩
  intro earlier hearlier now hnow
  rw [List.mem_singleton.mp hnow]
  exact (h.le_winnings earlier (hsub.subset hearlier)).trans_lt hmore

theorem Remembers.deal (h : u.Remembers winnings) (hclimbs : u.Climbs) :
    u'.Remembers winnings := by
  rw [Remembers, hhad]
  split
  · next hlong =>
    obtain ⟨first, rest, hcons⟩ :=
      List.exists_cons_of_length_pos (Nat.zero_lt_of_lt hlong)
    have hlength : historyLength < (u.had.tail ++ [u'.winnings]).length := by
      simpa [hcons] using hlong
    rcases h with hmem | ⟨-, hlater⟩
    · have hle := hclimbs.le_winnings winnings hmem
      rw [hcons] at hmem
      rcases List.mem_cons.mp hmem with rfl | hmem
      · -- the oldest winnings are forgotten
        refine .inr ⟨hlength, fun later hmem => ?_⟩
        rcases List.mem_append.mp hmem with hmem | hmem
        · rw [Climbs, hcons] at hclimbs
          rw [hcons, List.tail_cons] at hmem
          exact (List.pairwise_cons.mp hclimbs).1 later hmem
        · rw [List.mem_singleton.mp hmem]
          exact hle.trans_lt hmore
      · rw [hcons, List.tail_cons]
        exact .inl (List.mem_append_left _ hmem)
    · refine .inr ⟨hlength, fun later hmem => ?_⟩
      rcases List.mem_append.mp hmem with hmem | hmem
      · exact hlater later (List.mem_of_mem_tail hmem)
      · rw [List.mem_singleton.mp hmem]
        have hnow := hlater u.winnings
          (List.mem_append_right _ (List.mem_singleton_self _))
        exact hnow.trans hmore
  · next hshort =>
    rcases h with hmem | ⟨hlong, -⟩
    · exact .inl (List.mem_append_left _ hmem)
    · exact absurd hlong hshort

end Deal

end FullUserDataEx

namespace Strategy

/-! ## §4  The storages in step -/

/-- What the two storages say of a user: only the place and what was received
may differ, and the winnings of the second are such as the first remembers. -/
structure SameUser (u v : FullUserDataEx dm) : Prop where
  name : u.name = v.name
  nameList : u.nameList = v.nameList
  secondConnected : u.secondConnected = v.secondConnected
  winnings : u.Remembers v.winnings

/-- **The invariant of the main thread.** -/
structure InStep (s : Strategy dm) : Prop where
  cur : s.curMinData.Housed
  prev : s.prevMinData.Housed
  ranked : s.prevMinData.Ranked
  counter : 0 ≤ s.newUserId.toInt
  known : ∀ id : IdT, (s.curMinData.index[id]?).isSome ↔
    0 ≤ id.toInt ∧ id.toInt < s.newUserId.toInt
  same : ∀ id : IdT,
    Option.Rel SameUser s.curMinData.index[id]? s.prevMinData.index[id]?
  winnings : ∀ (id : IdT) u, s.curMinData.index[id]? = some u →
    0 ≤ u.winnings.toInt ∧ u.Climbs
  count : s.count.toInt ≤ 0

/-- **What a step does**, in terms of the users' data. -/
inductive Effect (s : Strategy dm) : StrategyStep dm → Strategy dm →
    Option (ClientMessage dm) → Prop
  | userRegistered {name : BufferT} {cur prev : UserDataStorage dm}
      (hfit : name.length ≤ 255)
      (hid : s.curMinData.index[s.newUserId]? = none)
      (hcounter : (s.newUserId + 1).toInt = s.newUserId.toInt + 1)
      (hcur : s.curMinData.Becomes s.newUserId { id := s.newUserId, name } cur)
      (hprev : s.prevMinData.Becomes s.newUserId { id := s.newUserId, name }
        prev) :
      Effect s (.userRegistered name)
        { s with
          curMinData := cur
          prevMinData := prev
          newUserId := s.newUserId + 1 }
        (some (.registered ⟨⟨s.newUserId⟩, name⟩))
  | userRenamed {index : ℕ} {newName : BufferT} {id : IdT}
      {u v : FullUserDataEx dm} {cur prev : UserDataStorage dm}
      (hdrawn : s.curMinData.getRandomUser UserFlags.anyone index = .ok id)
      (hfit : newName.length ≤ 255)
      (hu : s.curMinData.index[id]? = some u)
      (hv : s.prevMinData.index[id]? = some v)
      (hcur : s.curMinData.Becomes id { u with
        nameList := pushHistory u.nameList u.name, name := newName } cur)
      (hprev : s.prevMinData.Becomes id { v with
        nameList := pushHistory v.nameList v.name, name := newName } prev) :
      Effect s (.userRenamed index newName)
        { s with curMinData := cur, prevMinData := prev }
        (some (.renamed ⟨⟨id⟩, newName⟩))
  | userConnected {index : ℕ} {id : IdT} {second : ConnectTimeT}
      {u v : FullUserDataEx dm} {cur prev : UserDataStorage dm}
      (hu : s.curMinData.index[id]? = some u)
      (hv : s.prevMinData.index[id]? = some v)
      (hcur : s.curMinData.Becomes id { u with secondConnected := second } cur)
      (hprev : s.prevMinData.Becomes id { v with secondConnected := second }
        prev) :
      Effect s (.userConnected index)
        { s with curMinData := cur, prevMinData := prev }
        (some (.connected ⟨id⟩))
  | userDisconnected {index : ℕ} {id : IdT} {u v : FullUserDataEx dm}
      {cur prev : UserDataStorage dm}
      (hu : s.curMinData.index[id]? = some u)
      (hv : s.prevMinData.index[id]? = some v)
      (hcur : s.curMinData.Becomes id { u with
        secondConnected := invalidSecond
        ratingReceived := u.winnings = 0 && u.ratingReceived } cur)
      (hprev : s.prevMinData.Becomes id { v with
        secondConnected := invalidSecond
        ratingReceived := v.winnings = 0 && v.ratingReceived } prev) :
      Effect s (.userDisconnected index)
        { s with curMinData := cur, prevMinData := prev }
        (some (.disconnected ⟨id⟩))
  | userDealWon {index : ℕ} {winnings : MonetaryT dm} {id : IdT}
      {u : FullUserDataEx dm} {cur : UserDataStorage dm}
      (hpos : 0 < winnings.toInt)
      (hu : s.curMinData.index[id]? = some u)
      (hsum : (u.winnings + winnings).toInt =
        u.winnings.toInt + winnings.toInt)
      (hcur : s.curMinData.Becomes id { u with
        winningsHistory := pushHistory u.winningsHistory u.winnings
        winnings := u.winnings + winnings } cur) :
      Effect s (.userDealWon index winnings) { s with curMinData := cur }
        (some (.dealWon ⟨⟨id⟩, winnings⟩))
  | fakeUser {selectFakeActionType : ℕ} {message : ClientMessage dm}
      (hmessage : s.fakeMessage selectFakeActionType = .ok message)
      (hfake : s.fakeId.toInt < 0) :
      Effect s (.fakeUser selectFakeActionType)
        { s with count := s.count - 1 } (some message)
  | begin {second : Fin 60} : Effect s (.begin second)
      { s with currentSecond := some second } none
  | nextSecond : Effect s .nextSecond
      { s with currentSecond := s.currentSecond.map (· + 1) } none
  | nextMinute {second : Fin 60} : Effect s (.nextMinute second)
      { s with
        currentSecond := some second
        published := s.published ++ [s.prevMinData.publishValidationReport]
        prevMinData := s.prevMinData.setNextMinuteData s.curMinData } none

variable {s s' : Strategy dm} {a : StrategyStep dm}
  {msg : Option (ClientMessage dm)}

theorem inStep_init : ({} : Strategy dm).InStep where
  cur := UserDataStorage.housed_empty
  prev := UserDataStorage.housed_empty
  ranked := UserDataStorage.ranked_empty
  counter := le_refl 0
  known := by
    intro id
    have hzero : (0 : IdT).toInt = 0 := rfl
    simp only [Std.TreeMap.getElem?_emptyc, Option.isSome_none,
      Bool.false_eq_true, hzero, false_iff]
    omega
  same := by
    intro id
    simp only [Std.TreeMap.getElem?_emptyc]
    exact .none
  winnings := by simp
  count := le_refl 0

theorem InStep.sameUser_of_cur (h : s.InStep) {id : IdT}
    {u : FullUserDataEx dm} (hu : s.curMinData.index[id]? = some u) :
    ∃ v, s.prevMinData.index[id]? = some v ∧ SameUser u v := by
  have hsame := h.same id
  rw [hu] at hsame
  cases hv : s.prevMinData.index[id]? with
  | none =>
      rw [hv] at hsame
      cases hsame
  | some v =>
      rw [hv] at hsame
      exact ⟨v, rfl, Option.rel_some_some.mp hsame⟩

theorem InStep.sameUser (h : s.InStep) {id : IdT} {u v : FullUserDataEx dm}
    (hu : s.curMinData.index[id]? = some u)
    (hv : s.prevMinData.index[id]? = some v) : SameUser u v := by
  obtain ⟨w, hw, hsame⟩ := h.sameUser_of_cur hu
  cases hv.symm.trans hw
  exact hsame

theorem InStep.unknown_of_cur (h : s.InStep) {id : IdT}
    (hid : s.curMinData.index[id]? = none) :
    s.prevMinData.index[id]? = none := by
  have hsame := h.same id
  rw [hid] at hsame
  cases hv : s.prevMinData.index[id]? with
  | none => rfl
  | some v =>
      rw [hv] at hsame
      cases hsame

theorem InStep.size_prevMinData (h : s.InStep) :
    (s.prevMinData.index.size : ℤ) = s.newUserId.toInt := by
  have hcounter := h.counter
  have hlt := Int32.toInt_lt s.newUserId
  have hkeys : ∀ id : IdT, id ∈ s.prevMinData.index.keys.toFinset ↔
      0 ≤ id.toInt ∧ id.toInt < s.newUserId.toInt := by
    intro id
    rw [List.mem_toFinset, Std.TreeMap.mem_keys,
      Std.TreeMap.mem_iff_isSome_getElem?, ← h.known]
    have hsame := h.same id
    cases hu : s.curMinData.index[id]? with
    | none => rw [h.unknown_of_cur hu]
    | some u =>
        obtain ⟨v, hv, -⟩ := h.sameUser_of_cur hu
        rw [hv]
        rfl
  have himage : s.prevMinData.index.keys.toFinset.image Int32.toInt =
      Finset.Ico 0 s.newUserId.toInt := by
    ext i
    rw [Finset.mem_image, Finset.mem_Ico]
    constructor
    · rintro ⟨id, hid, rfl⟩
      exact (hkeys id).mp hid
    · rintro ⟨hge, hle⟩
      have hi : (Int32.ofInt i).toInt = i :=
        Int32.toInt_ofInt_of_le (by omega) (by omega)
      exact ⟨Int32.ofInt i, (hkeys _).mpr (by omega), hi⟩
  have hcard := congrArg Finset.card himage
  rw [Finset.card_image_of_injective _ fun _ _ => Int32.toInt_inj.mp,
    List.toFinset_card_of_nodup Std.TreeMap.nodup_keys, Int.card_Ico,
    Std.TreeMap.length_keys] at hcard
  omega

theorem InStep.same_becomes (h : s.InStep) {id : IdT}
    {u v : FullUserDataEx dm} {cur prev : UserDataStorage dm}
    (hcur : s.curMinData.Becomes id u cur)
    (hprev : s.prevMinData.Becomes id v prev) (huv : SameUser u v) (k : IdT) :
    Option.Rel SameUser cur.index[k]? prev.index[k]? := by
  rw [hcur.index, hprev.index]
  split
  · exact .some huv
  · exact h.same k

theorem InStep.known_becomes (h : s.InStep) {id : IdT}
    {u u' : FullUserDataEx dm} {cur : UserDataStorage dm}
    (hu : s.curMinData.index[id]? = some u)
    (hcur : s.curMinData.Becomes id u' cur) (k : IdT) :
    (cur.index[k]?).isSome ↔ 0 ≤ k.toInt ∧ k.toInt < s.newUserId.toInt := by
  rw [hcur.index, ← h.known]
  split
  · next heq =>
    subst heq
    rw [hu]
    simp
  · rfl

theorem InStep.winnings_becomes (h : s.InStep) {id : IdT}
    {u' : FullUserDataEx dm} {cur : UserDataStorage dm}
    (hcur : s.curMinData.Becomes id u' cur)
    (hu' : 0 ≤ u'.winnings.toInt ∧ u'.Climbs)
    (k : IdT) (w : FullUserDataEx dm) (hw : cur.index[k]? = some w) :
    0 ≤ w.winnings.toInt ∧ w.Climbs := by
  rw [hcur.index] at hw
  split at hw
  · cases hw
    exact hu'
  · exact h.winnings k w hw

/-- **The invariant is kept** by what a step does. -/
theorem InStep.effect (h : s.InStep) (heffect : s.Effect a s' msg)
    (hcur' : s'.curMinData.Housed) (hprev' : s'.prevMinData.Housed)
    (hcount' : s'.count.toInt ≤ 0) : s'.InStep := by
  cases heffect with
  | userRegistered hfit hid hcounter hcur hprev =>
      have hnone := h.unknown_of_cur hid
      have hnew : s.prevMinData.user s.newUserId = {} := by
        rw [UserDataStorage.user, Std.TreeMap.getD_eq_getD_getElem?, hnone]
        rfl
      have hcounter₀ := h.counter
      refine ⟨hcur', hprev', h.ranked.becomes hprev ?_ ?_, ?_, fun k => ?_,
        h.same_becomes hcur hprev ⟨rfl, rfl, rfl, FullUserDataEx.remembers_self _⟩,
        h.winnings_becomes hcur ⟨?_, List.pairwise_singleton _ _⟩, hcount'⟩
      · rw [hnew]
      · rw [hnew]
      · rw [hcounter]
        omega
      · rw [hcur.index, hcounter]
        split
        · next heq =>
          subst heq
          simp only [Option.isSome_some, true_iff]
          omega
        · next hne =>
          have hne' : k.toInt ≠ s.newUserId.toInt := fun heq =>
            hne (Int32.toInt_inj.mp heq).symm
          rw [h.known]
          omega
      · exact (BitVec.toInt_zero (w := _)).ge
  | userRenamed hdrawn hfit hu hv hcur hprev =>
      obtain ⟨hname, hnames, hsecond, hremembers⟩ := h.sameUser hu hv
      have hwon := h.winnings _ _ hu
      have huser := UserDataStorage.user_of_index hv
      exact ⟨hcur', hprev', h.ranked.becomes hprev (by rw [huser])
        (by rw [huser]), h.counter, h.known_becomes hu hcur,
        h.same_becomes hcur hprev ⟨rfl, by rw [hname, hnames], hsecond,
          hremembers⟩,
        h.winnings_becomes hcur hwon, hcount'⟩
  | userConnected hu hv hcur hprev =>
      obtain ⟨hname, hnames, hsecond, hremembers⟩ := h.sameUser hu hv
      have hwon := h.winnings _ _ hu
      have huser := UserDataStorage.user_of_index hv
      exact ⟨hcur', hprev', h.ranked.becomes hprev (by rw [huser])
        (by rw [huser]), h.counter, h.known_becomes hu hcur,
        h.same_becomes hcur hprev ⟨hname, hnames, rfl, hremembers⟩,
        h.winnings_becomes hcur hwon, hcount'⟩
  | userDisconnected hu hv hcur hprev =>
      obtain ⟨hname, hnames, hsecond, hremembers⟩ := h.sameUser hu hv
      have hwon := h.winnings _ _ hu
      have huser := UserDataStorage.user_of_index hv
      exact ⟨hcur', hprev', h.ranked.becomes hprev (by rw [huser])
        (by rw [huser]), h.counter, h.known_becomes hu hcur,
        h.same_becomes hcur hprev ⟨hname, hnames, rfl, hremembers⟩,
        h.winnings_becomes hcur hwon, hcount'⟩
  | @userDealWon _ winnings _ u _ hpos hu hsum hcur =>
      obtain ⟨hwon, hclimbs⟩ := h.winnings _ _ hu
      have hmore : u.winnings.toInt < (u.winnings + winnings).toInt := by
        omega
      refine ⟨hcur', hprev', h.ranked, h.counter, h.known_becomes hu hcur,
        fun k => ?_, h.winnings_becomes hcur ⟨?_, hclimbs.deal rfl hmore⟩,
        hcount'⟩
      · have hsame := h.same k
        rw [hcur.index]
        split
        · next heq =>
          subst heq
          obtain ⟨v, hv, hname, hnames, hsecond, hremembers⟩ :=
            h.sameUser_of_cur hu
          rw [hv]
          exact .some ⟨hname, hnames, hsecond,
            hremembers.deal rfl hmore hclimbs⟩
        · exact hsame
      · dsimp only
        omega
  | fakeUser hmessage hfake =>
      exact ⟨hcur', hprev', h.ranked, h.counter, h.known, h.same, h.winnings,
        hcount'⟩
  | begin =>
      exact ⟨hcur', hprev', h.ranked, h.counter, h.known, h.same, h.winnings,
        hcount'⟩
  | nextSecond =>
      exact ⟨hcur', hprev', h.ranked, h.counter, h.known, h.same, h.winnings,
        hcount'⟩
  | nextMinute =>
      obtain ⟨-, hranked, -, hindex⟩ := h.cur.setNextMinuteData s.prevMinData
      refine ⟨hcur', hprev', hranked, h.counter, h.known, fun k => ?_,
        h.winnings, hcount'⟩
      dsimp only
      rw [hindex]
      cases s.curMinData.index[k]? with
      | none => exact .none
      | some u => exact .some ⟨rfl, rfl, rfl, u.remembers_self⟩

theorem InStep.drawn (h : s.InStep) {userFlags : UserFlags} {index : ℕ}
    (hdraw : s.curMinData.CanDraw userFlags index) :
    ∃ id u v, s.curMinData.getRandomUser userFlags index = .ok id ∧
      s.curMinData.index[id]? = some u ∧ s.prevMinData.index[id]? = some v ∧
      SameUser u v ∧ u.home ∈ UserDataStorage.selectedMaps userFlags := by
  obtain ⟨id, u, hdrawn, hu, hhome⟩ := h.cur.getRandomUser hdraw
  obtain ⟨v, hv, hsame⟩ := h.sameUser_of_cur hu
  exact ⟨id, u, v, hdrawn, hu, hv, hsame, hhome⟩

theorem disconnected_of_home {u : FullUserDataEx dm}
    (h : u.home ∈ UserDataStorage.selectedMaps UserFlags.disconnectedAny) :
    u.secondConnected = invalidSecond := by
  have hmaps : UserDataStorage.selectedMaps UserFlags.disconnectedAny =
      [1, 3] := by decide
  rw [hmaps, FullUserDataEx.home] at h
  by_contra hconnected
  rw [if_neg hconnected, if_neg hconnected] at h
  split at h <;> simp at h

theorem connected_of_home {u : FullUserDataEx dm}
    (h : u.home ∈ UserDataStorage.selectedMaps UserFlags.connectedAny) :
    u.secondConnected ≠ invalidSecond := by
  have hmaps : UserDataStorage.selectedMaps UserFlags.connectedAny =
      [0, 2] := by decide
  rw [hmaps, FullUserDataEx.home] at h
  intro hdisconnected
  rw [if_pos hdisconnected, if_pos hdisconnected] at h
  split at h <;> simp at h

/-- **A step of the client succeeds**: no assertion fails, and both storages
have the user as the step makes him. -/
theorem InStep.perform (h : s.InStep) (hdraw : s.MayDraw a)
    (hrange : s.InRange a) :
    ∃ s' msg, s.perform a = .ok (s', msg) ∧ s.Effect a s' msg ∧
      s'.InStep := by
  cases a with
  | userRegistered name =>
      have hfit := hdraw.2
      have hlt : s.newUserId.toInt + 12 < 2 ^ 31 := hrange
      have hge := h.counter
      have hcounter : (s.newUserId + 1).toInt = s.newUserId.toInt + 1 := by
        rw [Int32.toInt_add, show (1 : Int32).toInt = 1 from rfl]
        exact Int.bmod_eq_of_le (by omega) (by omega)
      have hid : s.curMinData.index[s.newUserId]? = none := by
        refine Option.not_isSome_iff_eq_none.mp ?_
        rw [h.known]
        omega
      have hid' := h.unknown_of_cur hid
      have heffect := Effect.userRegistered hfit hid hcounter
        (UserDataStorage.becomes_emplaceUser hid name)
        (UserDataStorage.becomes_emplaceUser hid' name)
      refine ⟨_, _, ?_, heffect, h.effect heffect (h.cur.emplaceUser hid name)
        (h.prev.emplaceUser hid' name) h.count⟩
      rw [Strategy.perform, assert_of hfit]
      rfl
  | userRenamed index newName =>
      obtain ⟨-, hcan, hfit⟩ := hdraw
      obtain ⟨id, u, v, hdrawn, hu, hv, -, -⟩ := h.drawn hcan
      obtain ⟨cur, hcurOk, hcur', hcur⟩ := h.cur.renameUser hu newName
      obtain ⟨prev, hprevOk, hprev', hprev⟩ := h.prev.renameUser hv newName
      have heffect := Effect.userRenamed hdrawn hfit hu hv hcur hprev
      refine ⟨_, _, ?_, heffect, h.effect heffect hcur' hprev' h.count⟩
      rw [Strategy.perform, hdrawn, ok_bind, hcurOk, ok_bind, hprevOk, ok_bind,
        assert_of hfit]
      rfl
  | userConnected index =>
      obtain ⟨⟨second, hsecond, hcurrent⟩, hcan⟩ := hdraw
      obtain ⟨id, u, v, hdrawn, hu, hv, hsame, hhome⟩ := h.drawn hcan
      have hdisconnected := disconnected_of_home hhome
      have hvalid : UInt8.ofNat second ≠ invalidSecond := by
        intro heq
        have hnat : second % 256 = 60 := congrArg UInt8.toNat heq
        omega
      obtain ⟨cur, hcurOk, hcur', hcur⟩ :=
        h.cur.connectUser hu hdisconnected hvalid
      obtain ⟨prev, hprevOk, hprev', hprev⟩ :=
        h.prev.connectUser hv (hsame.secondConnected ▸ hdisconnected) hvalid
      have heffect : s.Effect (.userConnected index) _ _ :=
        .userConnected hu hv hcur hprev
      refine ⟨_, _, ?_, heffect, h.effect heffect hcur' hprev' h.count⟩
      rw [Strategy.perform, hcurrent]
      dsimp only [Option.getD_some]
      rw [hdrawn, ok_bind, hcurOk, ok_bind, hprevOk, ok_bind]
  | userDisconnected index =>
      obtain ⟨-, hcan⟩ := hdraw
      obtain ⟨id, u, v, hdrawn, hu, hv, hsame, hhome⟩ := h.drawn hcan
      have hconnected := connected_of_home hhome
      obtain ⟨cur, hcurOk, hcur', hcur⟩ := h.cur.disconnectUser hu hconnected
      obtain ⟨prev, hprevOk, hprev', hprev⟩ :=
        h.prev.disconnectUser hv (hsame.secondConnected ▸ hconnected)
      have heffect : s.Effect (.userDisconnected index) _ _ :=
        .userDisconnected hu hv hcur hprev
      refine ⟨_, _, ?_, heffect, h.effect heffect hcur' hprev' h.count⟩
      rw [Strategy.perform, hdrawn, ok_bind, hcurOk, ok_bind, hprevOk, ok_bind]
  | userDealWon index winnings =>
      obtain ⟨-, hcan, hpos, -⟩ := hdraw
      obtain ⟨id, u, v, hdrawn, hu, hv, -, -⟩ := h.drawn hcan
      have hwon := (h.winnings id u hu).1
      rw [InRange, hdrawn, OfDrawn] at hrange
      rw [UserDataStorage.user_of_index hu] at hrange
      have hsum := RatingCalculatorImpl.toInt_winnings_add
        (by omega : 0 ≤ winnings.toInt) hrange
      have hne : u.winnings + winnings ≠ 0 := by
        intro hzero
        have hnil : u.winnings.toInt + winnings.toInt = 0 := by
          rw [← hsum, hzero]
          exact BitVec.toInt_zero
        omega
      obtain ⟨cur, hcurOk, hcur', hcur⟩ := h.cur.fixUserWinnings hu hne
      have heffect : s.Effect (.userDealWon index winnings) _ _ :=
        .userDealWon (by omega) hu hsum hcur
      refine ⟨_, _, ?_, heffect, h.effect heffect hcur' h.prev h.count⟩
      rw [Strategy.perform, hdrawn, ok_bind, hcurOk, ok_bind]
  | fakeUser selectFakeActionType =>
      obtain ⟨-, hge, hle⟩ := hdraw
      have hcount := h.count
      have hlt : -2 ^ 31 + 1 < s.count.toInt := hrange
      have hnext : (s.count - 1).toInt = s.count.toInt - 1 := by
        rw [Int32.toInt_sub, show (1 : Int32).toInt = 1 from rfl]
        exact Int.bmod_eq_of_le (by omega) (by omega)
      have hfake : s.fakeId.toInt < 0 := by
        rw [fakeId, Int32.toInt_add, show invalidId.toInt = -1 from rfl,
          Int.bmod_eq_of_le (by omega) (by omega)]
        omega
      have hmessage : ∃ message,
          s.fakeMessage selectFakeActionType = .ok message := by
        obtain rfl | rfl | rfl | rfl : selectFakeActionType = 1 ∨
            selectFakeActionType = 2 ∨ selectFakeActionType = 3 ∨
            selectFakeActionType = 4 := by omega
        all_goals exact ⟨_, rfl⟩
      obtain ⟨message, hmessage⟩ := hmessage
      have heffect := Effect.fakeUser hmessage hfake
      refine ⟨_, _, ?_, heffect, h.effect heffect h.cur h.prev ?_⟩
      · rw [Strategy.perform, hmessage, ok_bind]
      · dsimp only
        omega
  | begin second =>
      exact ⟨_, _, rfl, .begin, h.effect .begin h.cur h.prev h.count⟩
  | nextSecond =>
      exact ⟨_, _, rfl, .nextSecond, h.effect .nextSecond h.cur h.prev h.count⟩
  | nextMinute second =>
      obtain ⟨hhoused, -⟩ := h.cur.setNextMinuteData s.prevMinData
      exact ⟨_, _, rfl, .nextMinute,
        h.effect .nextMinute h.cur hhoused h.count⟩

theorem InStep.received (h : s.InStep) {prev : UserDataStorage dm}
    (hprev : s.prevMinData.Received prev) :
    ({ s with prevMinData := prev } : Strategy dm).InStep := by
  refine { h with
    prev := hprev.housed h.prev
    ranked := hprev.ranked h.ranked
    same := fun id => ?_ }
  have hsame := h.same id
  have hrel := hprev.index id
  cases hu : s.curMinData.index[id]? <;>
    cases hv : s.prevMinData.index[id]? <;> cases hv' : prev.index[id]? <;>
    rw [hu, hv] at hsame <;> rw [hv, hv'] at hrel
  · exact .none
  all_goals try (cases hsame; done)
  all_goals try (cases hrel; done)
  obtain ⟨hname, hnames, hsecond, hremembers⟩ := Option.rel_some_some.mp hsame
  obtain ⟨received, rfl⟩ := Option.rel_some_some.mp hrel
  exact .some ⟨hname, hnames, hsecond, hremembers⟩

/-! ## §5  The two threads -/

/-- What the other thread does with the response it has found. -/
def receive (s : Strategy dm) :
    Option (Response dm) → Outcome (Strategy dm)
  | some response => do
      let prevMinData ← s.prevMinData.validate response
      .ok { s with prevMinData }
  | none => .ok s

end Strategy

inductive ThreadStep (dm : DataModel) where
  | run (a : StrategyStep dm)
  | processResponse (response : Response dm)

namespace Strategy

variable {s : Strategy dm}

def step (s : Strategy dm) : ThreadStep dm → Outcome (Strategy dm)
  | .run a => do
      let (s, _) ← s.perform a
      .ok s
  | .processResponse response => s.receive (some response)

def Allows (s : Strategy dm) : ThreadStep dm → Prop
  | .run a => s.MayDraw a ∧ s.InRange a
  | .processResponse response => response.Passed

instance (s : Strategy dm) (a : ThreadStep dm) : Decidable (s.Allows a) := by
  cases a <;> unfold Allows <;> infer_instance

theorem InStep.step (h : s.InStep) {a : ThreadStep dm} (ha : s.Allows a) :
    ∃ s', s.step a = .ok s' ∧ s'.InStep := by
  cases a with
  | run a =>
      obtain ⟨s', msg, hperform, -, hs'⟩ := h.perform ha.1 ha.2
      refine ⟨s', ?_, hs'⟩
      rw [Strategy.step, hperform, ok_bind]
  | processResponse response =>
      obtain ⟨prev, hvalidate, hprev⟩ := s.prevMinData.validate_received ha
      refine ⟨_, ?_, h.received hprev⟩
      rw [Strategy.step, receive, hvalidate, ok_bind]

/-- **The client's storages keep in step**: whatever is received in between, no
assertion fails, the maps of both storages agree with their users, these are
the users registered so far, both storages tell the same of them but for the
deals of the minute, and the rating the responses are compared with is that of
its users. -/
theorem storages_in_step (steps : List (ThreadStep dm))
    (hsteps : Runs.Meets step Allows ({} : Strategy dm) steps) :
    ∃ s : Strategy dm, Runs.exec step {} steps = .ok s ∧ s.curMinData.Housed ∧
      s.prevMinData.Housed ∧ s.prevMinData.Ranked ∧
      (∀ id : IdT, (s.curMinData.index[id]?).isSome ↔
        0 ≤ id.toInt ∧ id.toInt < s.newUserId.toInt) ∧
      ∀ id : IdT, Option.Rel SameUser s.curMinData.index[id]?
        s.prevMinData.index[id]? := by
  obtain ⟨s, hs, hinv⟩ := Runs.exec_of_meets
    (fun s a hinv ha => InStep.step hinv ha) steps _ inStep_init hsteps
  exact ⟨s, hs, hinv.cur, hinv.prev, hinv.ranked, hinv.known, hinv.same⟩

/-- Two users with a deal each, a rating, and the next minute. -/
def twoDeals : List (ThreadStep .lp64) :=
  [.run (.userRegistered [65]), .run (.userRegistered [66]), .run (.begin 59),
    .run (.userConnected 0), .run (.userConnected 0), .run (.userDealWon 0 10),
    .processResponse (.rating { userId := 1 }), .run (.userRenamed 1 [67]),
    .run (.userDealWon 1 20), .run .nextSecond, .run (.nextMinute 0),
    .processResponse (.error (.userUnrecognized (-1))),
    .run (.userDisconnected 0)]

theorem twoDeals_in_step :
    ∃ s, Runs.exec step {} twoDeals = .ok s ∧ s.prevMinData.rating = [1, 0] ∧
      s.prevMinData.Ranked := by
  obtain ⟨s, hs, -, -, hranked, -⟩ :=
    storages_in_step twoDeals (by decide +kernel)
  have hrun : (Runs.exec step {} twoDeals).toOption.map
      (fun s => s.prevMinData.rating) = some [1, 0] := by
    decide +kernel
  rw [hs] at hrun
  exact ⟨s, hs, Option.some_inj.mp hrun, hranked⟩

end Strategy

end RatingService
