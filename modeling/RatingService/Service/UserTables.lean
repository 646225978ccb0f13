import RatingService.Framework.KeyedFold
import RatingService.Service.RatingCalculator

/-!
# The user tables

What a batch does to one user. A user is unregistered, silent (registered,
without rating) or active, and every item of a batch moves only the user it
names; so the tables after the loops of the calculator are read off user by
user.

- §1: the tables' lookups.
- §2: a user's state.
- §3: the part of a record the rating rests on, and the steps that leave it
  alone.
- §4: what one item does to the user it names.
- §5: the loops, user by user.
- §6: a batch up to its deals.
-/

namespace RatingService

variable {dm : DataModel} {n : ℕ}

/-! ## §1  Lookups -/

theorem UnorderedMap.lookup_emplace_self {V : Type} (m : UnorderedMap V)
    (k : IdT) (v : V) :
    (m.emplace k v).lookup k = some ((m.lookup k).getD v) := by
  unfold emplace
  cases h : m.lookup k with
  | some w => simp [h]
  | none => simp

theorem UnorderedMap.lookup_emplace_ne {V : Type} (m : UnorderedMap V)
    {k k' : IdT} (v : V) (h : k' ≠ k) :
    (m.emplace k v).lookup k' = m.lookup k' := by
  unfold emplace
  split
  · rfl
  · exact AList.lookup_insert_ne h

theorem nodup_toList_keys {V : Type} (m : Std.TreeMap IdT V) :
    (m.toList.map Prod.fst).Nodup := by
  rw [Std.TreeMap.map_fst_toList_eq_keys]
  exact Std.TreeMap.nodup_keys

theorem mem_toList_keys {V : Type} {m : Std.TreeMap IdT V} {k : IdT} :
    k ∈ m.toList.map Prod.fst ↔ k ∈ m := by
  rw [Std.TreeMap.map_fst_toList_eq_keys, Std.TreeMap.mem_keys]

theorem getElem?_toList {V : Type} (m : Std.TreeMap IdT V) (k : IdT) :
    (m[k]? = none ∧ k ∉ m.toList.map Prod.fst) ∨
      ∃ v, m[k]? = some v ∧ (k, v) ∈ m.toList := by
  cases h : m[k]? with
  | none =>
      refine Or.inl ⟨rfl, ?_⟩
      rw [mem_toList_keys]
      simpa using h
  | some v =>
      exact Or.inr ⟨v, rfl, Std.TreeMap.mem_toList_iff_getElem?_eq_some.mpr h⟩

/-! ## §2  A user's state -/

/-- Where the tables have a user, with his record. -/
inductive UserState (dm : DataModel) where
  | unregistered
  | silent (user : BasicUserData)
  | active (user : FullUserData dm)

def CoreRatingData.userState (d : CoreRatingData dm) (id : IdT) :
    UserState dm :=
  match d.activeUsers.lookup id with
  | some u => .active u
  | none =>
      match d.silentUsers.lookup id with
      | some u => .silent u
      | none => .unregistered

def CoreRatingData.Disjoint (d : CoreRatingData dm) : Prop :=
  ∀ id u, d.activeUsers.lookup id = some u → d.silentUsers.lookup id = none

namespace UserState

def dropped : UserState dm → UserState dm
  | .active u => .silent u.toBasicUserData
  | st => st

/-- A registration counts for an unregistered user only. -/
def registered (name : BufferT) : UserState dm → UserState dm
  | .unregistered => .silent { name }
  | st => st

def renamed (name : BufferT) : UserState dm → UserState dm
  | .unregistered => .unregistered
  | .silent u => .silent { u with name }
  | .active u => .active { u with name }

def connected (second : ConnectTimeT) (st : UserState dm) : UserState dm :=
  if h : second < 60 ∨ second = invalidSecond then
    match st with
    | .unregistered => .unregistered
    | .silent u => .silent { u with secondConnected := ⟨second, h⟩ }
    | .active u => .active { u with secondConnected := ⟨second, h⟩ }
  else st

/-- A deal makes a silent user active, with a new object; an active user's
winnings change only in the merge. -/
inductive Dealt (id : IdT) (amount : MonetaryT dm) :
    UserState dm → UserState dm → Prop
  | unregistered : Dealt id amount .unregistered .unregistered
  | silent (u : BasicUserData) (serial : ℕ) :
      Dealt id amount (.silent u)
        (.active { u with id, amountWon := amount, serial })
  | active (u : FullUserData dm) : Dealt id amount (.active u) (.active u)

def isRegistered : UserState dm → Bool
  | .unregistered => false
  | _ => true

def isSilent : UserState dm → Bool
  | .silent _ => true
  | _ => false

def isActive : UserState dm → Bool
  | .active _ => true
  | _ => false

theorem Dealt.isRegistered {id : IdT} {amount : MonetaryT dm}
    {st st' : UserState dm} (h : st.Dealt id amount st') :
    st'.isRegistered = st.isRegistered := by
  cases h <;> rfl

theorem isRegistered_eq (st : UserState dm) :
    st.isRegistered = (st.isActive || st.isSilent) := by
  cases st <;> rfl

theorem Dealt.isActive {id : IdT} {amount : MonetaryT dm}
    {st st' : UserState dm} (h : st.Dealt id amount st') :
    st'.isActive = st.isRegistered := by
  cases h <;> rfl

theorem isRegistered_dropped (st : UserState dm) :
    st.dropped.isRegistered = st.isRegistered := by
  cases st <;> rfl

theorem isRegistered_registered (name : BufferT) (st : UserState dm) :
    (st.registered name).isRegistered = true := by
  cases st <;> rfl

theorem isRegistered_renamed (name : BufferT) (st : UserState dm) :
    (st.renamed name).isRegistered = st.isRegistered := by
  cases st <;> rfl

theorem isRegistered_connected (second : ConnectTimeT) (st : UserState dm) :
    (st.connected second).isRegistered = st.isRegistered := by
  unfold connected
  split
  · cases st <;> rfl
  · rfl

theorem isActive_dropped (st : UserState dm) : st.dropped.isActive = false := by
  cases st <;> rfl

theorem isActive_registered (name : BufferT) (st : UserState dm) :
    (st.registered name).isActive = st.isActive := by
  cases st <;> rfl

theorem isActive_renamed (name : BufferT) (st : UserState dm) :
    (st.renamed name).isActive = st.isActive := by
  cases st <;> rfl

theorem isActive_connected (second : ConnectTimeT) (st : UserState dm) :
    (st.connected second).isActive = st.isActive := by
  unfold connected
  split
  · cases st <;> rfl
  · rfl

end UserState

namespace CoreRatingData

theorem userState_active {d : CoreRatingData dm} {id : IdT}
    {u : FullUserData dm} (h : d.activeUsers.lookup id = some u) :
    d.userState id = .active u := by
  rw [userState, h]

theorem userState_silent {d : CoreRatingData dm} {id : IdT} {u : BasicUserData}
    (ha : d.activeUsers.lookup id = none)
    (hs : d.silentUsers.lookup id = some u) : d.userState id = .silent u := by
  rw [userState, ha, hs]

theorem userState_unregistered {d : CoreRatingData dm} {id : IdT}
    (ha : d.activeUsers.lookup id = none)
    (hs : d.silentUsers.lookup id = none) :
    d.userState id = .unregistered := by
  rw [userState, ha, hs]

theorem lookup_of_userState_active {d : CoreRatingData dm} {id : IdT}
    {u : FullUserData dm} (h : d.userState id = .active u) :
    d.activeUsers.lookup id = some u := by
  unfold userState at h
  split at h
  · rename_i v hv
    cases h
    exact hv
  · split at h <;> cases h

theorem lookup_of_userState_silent {d : CoreRatingData dm} {id : IdT}
    {u : BasicUserData} (h : d.userState id = .silent u) :
    d.activeUsers.lookup id = none ∧ d.silentUsers.lookup id = some u := by
  unfold userState at h
  split at h
  · cases h
  · rename_i ha
    split at h
    · rename_i v hv
      cases h
      exact ⟨ha, hv⟩
    · cases h

theorem isActive_iff {d : CoreRatingData dm} {id : IdT} :
    (d.userState id).isActive ↔ id ∈ d.activeUsers := by
  rw [← AList.lookup_isSome, userState]
  cases d.activeUsers.lookup id with
  | some u => simp [UserState.isActive]
  | none => cases d.silentUsers.lookup id <;> simp [UserState.isActive]

theorem isSilent_iff {d : CoreRatingData dm} {id : IdT} (hdisj : d.Disjoint) :
    (d.userState id).isSilent ↔ id ∈ d.silentUsers := by
  rw [← AList.lookup_isSome, userState]
  cases ha : d.activeUsers.lookup id with
  | some u => simp [UserState.isSilent, hdisj id u ha]
  | none => cases d.silentUsers.lookup id <;> simp [UserState.isSilent]

theorem userState_congr {d d' : CoreRatingData dm} {id : IdT}
    (ha : d'.activeUsers.lookup id = d.activeUsers.lookup id)
    (hs : d'.silentUsers.lookup id = d.silentUsers.lookup id) :
    d'.userState id = d.userState id := by
  rw [userState, userState, ha, hs]

end CoreRatingData

namespace RatingCalculatorImpl

def userState (s : RatingCalculatorImpl dm n) (id : IdT) : UserState dm :=
  s.userData.userState id

end RatingCalculatorImpl

/-! ## §3  What a step leaves alone -/

structure RatedData (dm : DataModel) where
  serial : ℕ
  amountWon : MonetaryT dm
  rank : ℤ

def FullUserData.rated (u : FullUserData dm) : RatedData dm :=
  ⟨u.serial, u.amountWon, u.rating⟩

def CoreRatingData.rated (d : CoreRatingData dm) (id : IdT) :
    Option (RatedData dm) :=
  (d.activeUsers.lookup id).map FullUserData.rated

namespace RatingCalculatorImpl

/-- A step that touches neither the rating, nor what it rests on, nor the
calculator's own variables. -/
structure Keeps (s s' : RatingCalculatorImpl dm n) : Prop where
  rating : s'.userData.rating = s.userData.rating
  rated : ∀ id, s'.userData.rated id = s.userData.rated id
  nextSerial : s'.userData.nextSerial = s.userData.nextSerial
  incomingBuffer : s'.incomingBuffer = s.incomingBuffer
  ratingPatches : s'.ratingPatches = s.ratingPatches
  freshRatings : s'.freshRatings = s.freshRatings

theorem Keeps.refl (s : RatingCalculatorImpl dm n) : s.Keeps s :=
  ⟨rfl, fun _ => rfl, rfl, rfl, rfl, rfl⟩

theorem Keeps.enqueueError (s : RatingCalculatorImpl dm n)
    (error : GenericProtocolError) : s.Keeps (s.enqueueError error) :=
  ⟨rfl, fun _ => rfl, rfl, rfl, rfl, rfl⟩

theorem Keeps.trans {s₁ s₂ s₃ : RatingCalculatorImpl dm n}
    (h₁ : s₁.Keeps s₂) (h₂ : s₂.Keeps s₃) : s₁.Keeps s₃ :=
  ⟨h₂.rating.trans h₁.rating, fun id => (h₂.rated id).trans (h₁.rated id),
    h₂.nextSerial.trans h₁.nextSerial,
    h₂.incomingBuffer.trans h₁.incomingBuffer,
    h₂.ratingPatches.trans h₁.ratingPatches,
    h₂.freshRatings.trans h₁.freshRatings⟩

/-- Rewriting an active user's record keeps the rating if the record's part
in it stays. -/
theorem rated_insert {d : CoreRatingData dm} {id : IdT} {u v : FullUserData dm}
    (hu : d.activeUsers.lookup id = some u) (hv : v.rated = u.rated)
    (k : IdT) :
    ((d.activeUsers.insert id v).lookup k).map FullUserData.rated =
      d.rated k := by
  unfold CoreRatingData.rated
  by_cases hk : k = id
  · subst hk
    rw [AList.lookup_insert, hu]
    exact congrArg some hv
  · rw [AList.lookup_insert_ne hk]

/-! ## §4  One item, one user -/

theorem dropRating_silent (s : RatingCalculatorImpl dm n) (id : IdT) :
    s.dropRating.userData.silentUsers.lookup id =
      (s.userData.silentUsers.lookup id).or
        ((s.userData.activeUsers.lookup id).map (·.toBasicUserData)) := by
  obtain ⟨hmem, hout⟩ := KeyedFold.foldl_view
    (fun e : Sigma fun _ : IdT => FullUserData dm => e.1)
    (fun (m : SilentUsersMap) k => m.lookup k)
    (fun e old new => new = old.or (some e.2.toBasicUserData))
    (fun m e => by
      show (m.emplace _ _).lookup _ = _
      rw [UnorderedMap.lookup_emplace_self]
      cases m.lookup e.1 <;> rfl)
    (fun m e k hk => UnorderedMap.lookup_emplace_ne m _ hk)
    s.userData.activeUsers.entries s.userData.silentUsers
    s.userData.activeUsers.keys_nodup
  cases hid : s.userData.activeUsers.lookup id with
  | some u =>
      exact hmem ⟨id, u⟩ (AList.mem_lookup_iff.mp hid)
  | none =>
      rw [Option.map_none, Option.or_none]
      exact hout id (AList.lookup_eq_none.mp hid)

/-- The drop turns every active user silent. -/
theorem dropRating_userState {s : RatingCalculatorImpl dm n}
    (hdisj : s.userData.Disjoint) (id : IdT) :
    s.dropRating.userState id = (s.userState id).dropped := by
  have hactive : s.dropRating.userData.activeUsers.lookup id = none :=
    AList.lookup_empty id
  have hsilent := dropRating_silent s id
  unfold userState CoreRatingData.userState
  rw [hactive]
  cases ha : s.userData.activeUsers.lookup id with
  | some u =>
      rw [ha, hdisj id u ha] at hsilent
      simp only [hsilent]
      rfl
  | none =>
      rw [ha, Option.map_none, Option.or_none] at hsilent
      simp only [hsilent]
      cases s.userData.silentUsers.lookup id <;> rfl

theorem dropRating_disjoint (s : RatingCalculatorImpl dm n) :
    s.dropRating.userData.Disjoint := by
  intro id u h
  have hactive : s.dropRating.userData.activeUsers.lookup id = none :=
    AList.lookup_empty id
  rw [hactive] at h
  cases h

theorem userExists_eq_false {s : RatingCalculatorImpl dm n} {id : IdT} :
    s.userExists id = false ↔ s.userData.silentUsers.lookup id = none ∧
      s.userData.activeUsers.lookup id = none := by
  simp [userExists]

theorem processRegistration_self (s : RatingCalculatorImpl dm n)
    (e : IdT × BufferT) :
    (s.processRegistration e).userState e.1 =
      (s.userState e.1).registered e.2 := by
  unfold processRegistration
  split
  · rename_i hex
    unfold userState CoreRatingData.userState
    cases ha : s.userData.activeUsers.lookup e.1 with
    | some u => simp [enqueueError, ha, UserState.registered]
    | none =>
        cases hs : s.userData.silentUsers.lookup e.1 with
        | some u => simp [enqueueError, ha, hs, UserState.registered]
        | none => simp [userExists, ha, hs] at hex
  · rename_i hex
    obtain ⟨hs, ha⟩ := userExists_eq_false.mp (Bool.eq_false_iff.mpr hex)
    have hnew := UnorderedMap.lookup_emplace_self s.userData.silentUsers e.1
      { name := e.2 }
    rw [hs] at hnew
    unfold userState CoreRatingData.userState
    simp only [ha, hs, hnew]
    rfl

theorem processRegistration_other (s : RatingCalculatorImpl dm n)
    (e : IdT × BufferT) {k : IdT} (hk : k ≠ e.1) :
    (s.processRegistration e).userState k = s.userState k := by
  unfold processRegistration
  split
  · rfl
  · exact CoreRatingData.userState_congr rfl
      (UnorderedMap.lookup_emplace_ne _ _ hk)

theorem processRegistration_keeps (s : RatingCalculatorImpl dm n)
    (e : IdT × BufferT) : s.Keeps (s.processRegistration e) := by
  unfold processRegistration
  split
  · exact Keeps.enqueueError s _
  · exact ⟨rfl, fun _ => rfl, rfl, rfl, rfl, rfl⟩

theorem processRegistration_disjoint {s : RatingCalculatorImpl dm n}
    (e : IdT × BufferT) (hdisj : s.userData.Disjoint) :
    (s.processRegistration e).userData.Disjoint := by
  unfold processRegistration
  split
  · exact hdisj
  · rename_i hex
    intro id u h
    have hne : id ≠ e.1 := by
      rintro rfl
      have hnone := (userExists_eq_false.mp (Bool.eq_false_iff.mpr hex)).2
      exact Option.some_ne_none u (h.symm.trans hnone)
    exact (UnorderedMap.lookup_emplace_ne _ _ hne).trans (hdisj id u h)

theorem processRename_self (s : RatingCalculatorImpl dm n)
    (e : IdT × BufferT) :
    (s.processRename e).userState e.1 = (s.userState e.1).renamed e.2 := by
  unfold processRename userState CoreRatingData.userState
  cases ha : s.userData.activeUsers.lookup e.1 with
  | some u => simp [UserState.renamed]
  | none =>
      cases hs : s.userData.silentUsers.lookup e.1 with
      | some u => simp [ha, UserState.renamed]
      | none => simp [enqueueError, ha, hs, UserState.renamed]

theorem processRename_other (s : RatingCalculatorImpl dm n)
    (e : IdT × BufferT) {k : IdT} (hk : k ≠ e.1) :
    (s.processRename e).userState k = s.userState k := by
  unfold processRename
  split
  · exact CoreRatingData.userState_congr (AList.lookup_insert_ne hk) rfl
  · split
    · exact CoreRatingData.userState_congr rfl (AList.lookup_insert_ne hk)
    · rfl

theorem processRename_keeps (s : RatingCalculatorImpl dm n)
    (e : IdT × BufferT) : s.Keeps (s.processRename e) := by
  unfold processRename
  split
  · rename_i u hu
    exact ⟨rfl, rated_insert hu rfl, rfl, rfl, rfl, rfl⟩
  · split
    · exact ⟨rfl, fun _ => rfl, rfl, rfl, rfl, rfl⟩
    · exact Keeps.enqueueError s _

theorem disjoint_insert_active {d : CoreRatingData dm} {id : IdT}
    {u v : FullUserData dm} (hu : d.activeUsers.lookup id = some u)
    (hdisj : d.Disjoint) :
    ({ d with activeUsers := d.activeUsers.insert id v } :
      CoreRatingData dm).Disjoint := by
  intro k w hw
  by_cases hk : k = id
  · exact hk ▸ hdisj id u hu
  · exact hdisj k w ((AList.lookup_insert_ne hk).symm.trans hw)

theorem disjoint_insert_silent {d : CoreRatingData dm} {id : IdT}
    {v : BasicUserData} (ha : d.activeUsers.lookup id = none)
    (hdisj : d.Disjoint) :
    ({ d with silentUsers := d.silentUsers.insert id v } :
      CoreRatingData dm).Disjoint := by
  intro k w hw
  have hk : k ≠ id := by
    rintro rfl
    exact Option.some_ne_none w (hw.symm.trans ha)
  exact (AList.lookup_insert_ne hk).trans (hdisj k w hw)

theorem processRename_disjoint {s : RatingCalculatorImpl dm n}
    (e : IdT × BufferT) (hdisj : s.userData.Disjoint) :
    (s.processRename e).userData.Disjoint := by
  unfold processRename
  split
  · rename_i u hu
    exact disjoint_insert_active hu hdisj
  · rename_i ha
    split
    · exact disjoint_insert_silent ha hdisj
    · exact hdisj

/-- A connection change with a proper second does not fail, and is the step
of the one user it names. -/
theorem processConnectionChange_spec {s : RatingCalculatorImpl dm n}
    (e : IdT × ConnectTimeT) (hdisj : s.userData.Disjoint)
    (he : e.2 < 60 ∨ e.2 = invalidSecond) :
    ∃ s', s.processConnectionChange e = .ok s' ∧ s'.userData.Disjoint ∧
      s.Keeps s' ∧ s'.userState e.1 = (s.userState e.1).connected e.2 ∧
      ∀ k, k ≠ e.1 → s'.userState k = s.userState k := by
  unfold processConnectionChange
  rw [dif_pos he]
  cases ha : s.userData.activeUsers.lookup e.1 with
  | some u =>
      refine ⟨_, rfl, disjoint_insert_active ha hdisj,
        ⟨rfl, rated_insert ha rfl, rfl, rfl, rfl, rfl⟩, ?_, ?_⟩
      · simp only [userState]
        rw [CoreRatingData.userState_active (AList.lookup_insert _),
          CoreRatingData.userState_active ha, UserState.connected, dif_pos he]
      · intro k hk
        exact CoreRatingData.userState_congr (AList.lookup_insert_ne hk) rfl
  | none =>
      cases hs : s.userData.silentUsers.lookup e.1 with
      | some u =>
          refine ⟨_, rfl, disjoint_insert_silent ha hdisj,
            ⟨rfl, fun _ => rfl, rfl, rfl, rfl, rfl⟩, ?_, ?_⟩
          · simp [userState, CoreRatingData.userState, ha, hs,
              UserState.connected, he]
          · intro k hk
            exact CoreRatingData.userState_congr rfl (AList.lookup_insert_ne hk)
      | none =>
          refine ⟨_, rfl, hdisj, Keeps.enqueueError s _, ?_, fun k _ => rfl⟩
          have hst := CoreRatingData.userState_unregistered ha hs
          show s.userData.userState e.1 = (s.userData.userState e.1).connected _
          rw [hst, UserState.connected, dif_pos he]

/-! ## §5  The loops, user by user -/

theorem foldl_userState {V : Type} {op : V → UserState dm → UserState dm}
    {step : RatingCalculatorImpl dm n → IdT × V → RatingCalculatorImpl dm n}
    (hself : ∀ s e, (step s e).userState e.1 = op e.2 (s.userState e.1))
    (hother : ∀ s e k, k ≠ e.1 → (step s e).userState k = s.userState k)
    (m : Std.TreeMap IdT V) (s : RatingCalculatorImpl dm n) (id : IdT) :
    (m.toList.foldl step s).userState id =
      (m[id]?).elim (s.userState id) (op · (s.userState id)) := by
  obtain ⟨hmem, hout⟩ := KeyedFold.foldl_view Prod.fst userState
    (fun e old new => new = op e.2 old) hself hother m.toList s
    (nodup_toList_keys m)
  rcases getElem?_toList m id with ⟨hnone, hid⟩ | ⟨v, hv, hid⟩
  · rw [hnone]
    exact hout id hid
  · rw [hv]
    exact hmem _ hid

theorem processRegistrations_userState (s : RatingCalculatorImpl dm n)
    (id : IdT) :
    s.processRegistrations.userState id =
      (s.incomingBuffer.usersRegistered[id]?).elim (s.userState id)
        ((s.userState id).registered ·) :=
  foldl_userState processRegistration_self
    (fun s e _ => processRegistration_other s e)
    s.incomingBuffer.usersRegistered s id

theorem processRenames_userState (s : RatingCalculatorImpl dm n) (id : IdT) :
    s.processRenames.userState id =
      (s.incomingBuffer.usersRenamed[id]?).elim (s.userState id)
        ((s.userState id).renamed ·) :=
  foldl_userState processRename_self (fun s e _ => processRename_other s e)
    s.incomingBuffer.usersRenamed s id

theorem foldl_keeps {E : Type}
    {step : RatingCalculatorImpl dm n → E → RatingCalculatorImpl dm n}
    (hkeep : ∀ s e, Keeps s (step s e))
    (hdisj : ∀ s e, s.userData.Disjoint → (step s e).userData.Disjoint)
    (l : List E) (s : RatingCalculatorImpl dm n) (h : s.userData.Disjoint) :
    s.Keeps (l.foldl step s) ∧ (l.foldl step s).userData.Disjoint := by
  constructor
  · exact KeyedFold.foldl_invariant (fun s' => s.Keeps s')
      (fun s' e hs' => hs'.trans (hkeep s' e)) l s (Keeps.refl s)
  · exact KeyedFold.foldl_invariant (fun s' => s'.userData.Disjoint) hdisj l s h

theorem processConnectionChanges_spec {s : RatingCalculatorImpl dm n}
    (hdisj : s.userData.Disjoint)
    (hsec : ∀ (id : IdT) (second : ConnectTimeT),
      s.incomingBuffer.connectionChanges[id]? = some second →
        second < 60 ∨ second = invalidSecond) :
    ∃ s', s.processConnectionChanges = .ok s' ∧ s'.userData.Disjoint ∧
      s.Keeps { s' with incomingBuffer := s.incomingBuffer } ∧
      s'.incomingBuffer = { s.incomingBuffer with connectionChanges := ∅ } ∧
      ∀ id, s'.userState id =
        (s.incomingBuffer.connectionChanges[id]?).elim (s.userState id)
          ((s.userState id).connected ·) := by
  obtain ⟨s', hs', ⟨hdisj', hkeep⟩, hmem, hout⟩ := KeyedFold.foldlM_view
    Prod.fst userState (fun e old new => new = old.connected e.2)
    (fun s' => s'.userData.Disjoint ∧ s.Keeps s')
    (fun e => e.2 < 60 ∨ e.2 = invalidSecond)
    (fun s₁ e hinv he => by
      obtain ⟨s₂, hs₂, hd, hk, hself, hother⟩ :=
        processConnectionChange_spec e hinv.1 he
      exact ⟨s₂, hs₂, ⟨hd, hinv.2.trans hk⟩, hself, hother⟩)
    s.incomingBuffer.connectionChanges.toList s (nodup_toList_keys _)
    ⟨hdisj, Keeps.refl s⟩
    (fun e he => hsec e.1 e.2
      (Std.TreeMap.mem_toList_iff_getElem?_eq_some.mp he))
  refine ⟨{ s' with incomingBuffer :=
      { s'.incomingBuffer with connectionChanges := ∅ } },
    by rw [processConnectionChanges, hs']; rfl, hdisj', ?_, ?_, ?_⟩
  · exact ⟨hkeep.rating, hkeep.rated, hkeep.nextSerial, rfl,
      hkeep.ratingPatches, hkeep.freshRatings⟩
  · simp only [hkeep.incomingBuffer]
  · intro id
    rcases getElem?_toList s.incomingBuffer.connectionChanges id with
      ⟨hnone, hid⟩ | ⟨v, hv, hid⟩
    · rw [hnone]
      exact hout id hid
    · rw [hv]
      exact hmem _ hid

/-! ## §6  The batch up to its deals -/

/-- The steps of `recalculate` before `processDeals`. -/
def beforeDeals (s : RatingCalculatorImpl dm n) (dropOldRating : Bool) :
    Outcome (RatingCalculatorImpl dm n) :=
  (if dropOldRating then s.dropRating else
    s).processRegistrations.processRenames.processConnectionChanges

theorem prepare_eq (s : RatingCalculatorImpl dm n) (dropOldRating : Bool) :
    s.prepare dropOldRating =
      s.beforeDeals dropOldRating >>= processDeals := rfl

def batchState (s : RatingCalculatorImpl dm n) (dropOldRating : Bool)
    (id : IdT) : UserState dm :=
  let st := if dropOldRating then (s.userState id).dropped else s.userState id
  let st := (s.incomingBuffer.usersRegistered[id]?).elim st (st.registered ·)
  let st := (s.incomingBuffer.usersRenamed[id]?).elim st (st.renamed ·)
  (s.incomingBuffer.connectionChanges[id]?).elim st (st.connected ·)

theorem isRegistered_batchState (s : RatingCalculatorImpl dm n)
    (dropOldRating : Bool) (id : IdT) :
    (s.batchState dropOldRating id).isRegistered =
      ((s.userState id).isRegistered ||
        (s.incomingBuffer.usersRegistered[id]?).isSome) := by
  unfold batchState
  cases s.incomingBuffer.connectionChanges[id]? <;>
    cases s.incomingBuffer.usersRenamed[id]? <;>
    cases s.incomingBuffer.usersRegistered[id]? <;>
    cases dropOldRating <;>
    simp [UserState.isRegistered_connected, UserState.isRegistered_renamed,
      UserState.isRegistered_registered, UserState.isRegistered_dropped]

theorem isActive_batchState (s : RatingCalculatorImpl dm n)
    (dropOldRating : Bool) (id : IdT) :
    (s.batchState dropOldRating id).isActive =
      (!dropOldRating && (s.userState id).isActive) := by
  unfold batchState
  cases s.incomingBuffer.connectionChanges[id]? <;>
    cases s.incomingBuffer.usersRenamed[id]? <;>
    cases s.incomingBuffer.usersRegistered[id]? <;>
    cases dropOldRating <;>
    simp [UserState.isActive_connected, UserState.isActive_renamed,
      UserState.isActive_registered, UserState.isActive_dropped]

structure BeforeDeals (s : RatingCalculatorImpl dm n) (dropOldRating : Bool)
    (s' : RatingCalculatorImpl dm n) : Prop where
  disjoint : s'.userData.Disjoint
  userState : ∀ id, s'.userState id = s.batchState dropOldRating id
  rating : s'.userData.rating = if dropOldRating then [] else s.userData.rating
  rated : ∀ id, s'.userData.rated id =
    if dropOldRating then none else s.userData.rated id
  nextSerial : s'.userData.nextSerial = s.userData.nextSerial
  incomingBuffer : s'.incomingBuffer = { dealsWon := s.incomingBuffer.dealsWon }
  ratingPatches : s'.ratingPatches = s.ratingPatches
  freshRatings : s'.freshRatings = s.freshRatings

/-- **The batch up to its deals**: it does not fail on proper seconds, and
takes every user where his items take him. -/
theorem beforeDeals_spec {s : RatingCalculatorImpl dm n}
    (dropOldRating : Bool) (hdisj : s.userData.Disjoint)
    (hsec : ∀ (id : IdT) (second : ConnectTimeT),
      s.incomingBuffer.connectionChanges[id]? = some second →
        second < 60 ∨ second = invalidSecond) :
    ∃ s', s.beforeDeals dropOldRating = .ok s' ∧
      s.BeforeDeals dropOldRating s' := by
  -- the drop
  obtain ⟨s₀, hs₀, hd₀, hst₀, hr₀, hra₀, hn₀, hb₀, hp₀, hf₀⟩ :
      ∃ s₀, (if dropOldRating then s.dropRating else s) = s₀ ∧
        s₀.userData.Disjoint ∧
        (∀ id, s₀.userState id =
          if dropOldRating then (s.userState id).dropped else s.userState id) ∧
        s₀.userData.rating =
          (if dropOldRating then [] else s.userData.rating) ∧
        (∀ id, s₀.userData.rated id =
          if dropOldRating then none else s.userData.rated id) ∧
        s₀.userData.nextSerial = s.userData.nextSerial ∧
        s₀.incomingBuffer = s.incomingBuffer ∧
        s₀.ratingPatches = s.ratingPatches ∧
        s₀.freshRatings = s.freshRatings := by
    cases dropOldRating with
    | true =>
        exact ⟨_, rfl, dropRating_disjoint s, dropRating_userState hdisj, rfl,
          fun id => rfl, rfl, rfl, rfl, rfl⟩
    | false =>
        exact ⟨_, rfl, hdisj, fun id => rfl, rfl, fun id => rfl, rfl, rfl, rfl,
          rfl⟩
  -- the registrations and the renames
  obtain ⟨hk₁, hd₁⟩ := foldl_keeps processRegistration_keeps
    (fun s e => processRegistration_disjoint e)
    s₀.incomingBuffer.usersRegistered.toList s₀ hd₀
  have hb₁ : s₀.processRegistrations.incomingBuffer =
      { s₀.incomingBuffer with usersRegistered := ∅ } :=
    congrArg (fun b : IncomingDataBuffer dm => { b with usersRegistered := ∅ })
      hk₁.incomingBuffer
  obtain ⟨hk₂, hd₂⟩ := foldl_keeps processRename_keeps
    (fun s e => processRename_disjoint e)
    s₀.processRegistrations.incomingBuffer.usersRenamed.toList
    s₀.processRegistrations hd₁
  have hb₂ : s₀.processRegistrations.processRenames.incomingBuffer =
      { s₀.incomingBuffer with usersRegistered := ∅, usersRenamed := ∅ } := by
    refine (congrArg
      (fun b : IncomingDataBuffer dm => { b with usersRenamed := ∅ })
      hk₂.incomingBuffer).trans ?_
    rw [hb₁]
  -- the connection changes
  obtain ⟨s', hs', hd', hk', hb', hst'⟩ :=
    processConnectionChanges_spec (s := s₀.processRegistrations.processRenames)
      hd₂ (by rw [hb₂, hb₀]; exact hsec)
  refine ⟨s', by rw [beforeDeals, hs₀]; exact hs', ?_⟩
  refine
    { disjoint := hd'
      userState := fun id => ?_
      rating := hk'.rating.trans (hk₂.rating.trans (hk₁.rating.trans hr₀))
      rated := fun id => (hk'.rated id).trans ((hk₂.rated id).trans
        ((hk₁.rated id).trans (hra₀ id)))
      nextSerial := hk'.nextSerial.trans (hk₂.nextSerial.trans
        (hk₁.nextSerial.trans hn₀))
      incomingBuffer := by rw [hb', hb₂, hb₀]
      ratingPatches := hk'.ratingPatches.trans (hk₂.ratingPatches.trans
        (hk₁.ratingPatches.trans hp₀))
      freshRatings := hk'.freshRatings.trans (hk₂.freshRatings.trans
        (hk₁.freshRatings.trans hf₀)) }
  rw [hst', processRenames_userState, processRegistrations_userState, hst₀, hb₂,
    hb₁, hb₀]
  rfl

end RatingCalculatorImpl

end RatingService
