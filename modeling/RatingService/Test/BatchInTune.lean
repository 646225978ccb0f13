import RatingService.Service.SettledTables
import RatingService.Test.Strategy

/-!
# A minute's batch

What the service has of the client's users, in its tables and in the batch of
the present minute. The batch keeps the first new name of a minute only, so the
service may have a user under a name he had some renames ago.

- §1: a user's names.
- §2: the batch.
- §3: the messages of the client.
- §4: the recalculation.
-/

namespace RatingService

open RatingCalculatorImpl

variable {dm : DataModel} {n : ℕ}

/-! ## §1  A user's names -/

def FullUserDataEx.names (u : FullUserDataEx dm) : List BufferT :=
  u.name :: u.nameList.reverse

namespace FullUserDataEx

variable {u : FullUserDataEx dm} {age : ℕ} {name : BufferT}

theorem names_rename (h : u.names[age]? = some name) (hage : age < historyLength)
    (newName : BufferT) :
    ({ u with nameList := pushHistory u.nameList u.name, name := newName } :
      FullUserDataEx dm).names[age + 1]? = some name := by
  have hnames : (u.nameList ++ [u.name]).reverse = u.names := by
    rw [List.reverse_append]
    rfl
  show (pushHistory u.nameList u.name).reverse[age]? = some name
  rw [pushHistory]
  split
  · next hlong =>
    rw [← List.dropLast_reverse, hnames, List.getElem?_dropLast, if_pos, h]
    rw [← hnames, List.length_reverse]
    omega
  · rw [hnames, h]

theorem eq_or_mem_of_names (h : u.names[age]? = some name) :
    u.name = name ∨ name ∈ u.nameList := by
  rcases List.mem_cons.mp (List.mem_of_getElem? h) with heq | hmem
  · exact .inl heq.symm
  · exact .inr (List.mem_reverse.mp hmem)

end FullUserDataEx

/-! ## §2  The batch -/

/-- **What the service has of a user** who is `u` for the client by now, was
`v` when the minute began, and has been renamed `count` times since. -/
structure UserInTune (d : CoreRatingData dm) (b : IncomingDataBuffer dm)
    (id : IdT) (count : ℕ) (u v : FullUserDataEx dm) : Prop where
  /-- the tables have him under a recent name, or else the batch does -/
  present :
    (b.usersRegistered[id]? = none ∧ ∃ basic age,
      (d.userState id).basic = some basic ∧ age ≤ 2 + count ∧
      u.names[age]? = some basic.name) ∨
    (d.userState id).basic = none ∧ ∃ name,
      b.usersRegistered[id]? = some name ∧ u.names[count]? = some name
  few : count ≤ 3
  /-- the batch has the first of the new names -/
  renamed : ∀ later, count = later + 1 → ∃ name,
    b.usersRenamed[id]? = some name ∧ u.names[later]? = some name
  won : (d.rated id).map RatedData.amountWon =
    if v.winnings = 0 then none else some v.winnings
  deals : u.winnings.toInt = v.winnings.toInt + dealt b.dealsWon id
  nonneg : 0 ≤ v.winnings.toInt

/-- **The batch of the present minute.** -/
structure BatchInTune (s : Strategy dm) (d : CoreRatingData dm)
    (b : IncomingDataBuffer dm) (renames : List IdT) : Prop where
  users : ∀ (id : IdT) u v, s.curMinData.index[id]? = some u →
    s.prevMinData.index[id]? = some v →
      UserInTune d b id (renames.count id) u v
  strangers : ∀ id : IdT, s.curMinData.index[id]? = none →
    (d.userState id).basic = none ∧ b.usersRegistered[id]? = none
  renamed : ∀ id : IdT, (b.usersRenamed[id]?).isSome ↔ id ∈ renames
  /-- nobody is mentioned who is not registered yet -/
  mentioned : ∀ id : IdT, (b.usersRenamed[id]?).isSome ∨
    (b.connectionChanges[id]?).isSome ∨ (b.dealsWon[id]?).isSome →
      id.toInt < s.newUserId.toInt
  positive : ∀ (id : IdT) a, b.dealsWon[id]? = some a → 0 < a.toInt
  /-- the made-up ids to come have no deals -/
  unused : ∀ id : IdT, id.toInt ≤ s.fakeId.toInt → b.dealsWon[id]? = none
  counted : -2 ^ 31 < s.count.toInt

structure IncomingDataBuffer.SameAt (b b' : IncomingDataBuffer dm)
    (id : IdT) : Prop where
  usersRegistered : b'.usersRegistered[id]? = b.usersRegistered[id]?
  usersRenamed : b'.usersRenamed[id]? = b.usersRenamed[id]?
  dealsWon : b'.dealsWon[id]? = b.dealsWon[id]?

section Change

variable {s s' : Strategy dm} {d : CoreRatingData dm}
  {b b' : IncomingDataBuffer dm} {renames renames' : List IdT} {id : IdT}
  {count : ℕ} {u u' v v' : FullUserDataEx dm}

theorem UserInTune.congr (h : UserInTune d b id count u v)
    (hb : b.SameAt b' id) (hnames : u'.names = u.names)
    (hwon : u'.winnings = u.winnings) (hwon' : v'.winnings = v.winnings) :
    UserInTune d b' id count u' v' where
  present := by
    rw [hb.usersRegistered, hnames]
    exact h.present
  few := h.few
  renamed := by
    rw [hb.usersRenamed, hnames]
    exact h.renamed
  won := by
    rw [hwon']
    exact h.won
  deals := by
    rw [hwon, hwon', dealt, hb.dealsWon]
    exact h.deals
  nonneg := by
    rw [hwon']
    exact h.nonneg

/-- **A change that is about one user** leaves what the service has of the
others. -/
theorem BatchInTune.users_change (h : BatchInTune s d b renames) (k : IdT)
    (hb : ∀ id, id ≠ k → b.SameAt b' id)
    (hcur : ∀ id : IdT, id ≠ k →
      s'.curMinData.index[id]? = s.curMinData.index[id]?)
    (hprev : ∀ id : IdT, id ≠ k →
      s'.prevMinData.index[id]? = s.prevMinData.index[id]?)
    (hcount : ∀ id, id ≠ k → renames'.count id = renames.count id)
    (hself : ∀ u v, s'.curMinData.index[k]? = some u →
      s'.prevMinData.index[k]? = some v →
        UserInTune d b' k (renames'.count k) u v)
    (id : IdT) (u v : FullUserDataEx dm)
    (hu : s'.curMinData.index[id]? = some u)
    (hv : s'.prevMinData.index[id]? = some v) :
    UserInTune d b' id (renames'.count id) u v := by
  by_cases hid : id = k
  · subst hid
    exact hself u v hu hv
  · rw [hcur id hid] at hu
    rw [hprev id hid] at hv
    rw [hcount id hid]
    exact (h.users id u v hu hv).congr (hb id hid) rfl rfl rfl

theorem BatchInTune.strangers_change (h : BatchInTune s d b renames) (k : IdT)
    (hb : ∀ id : IdT, id ≠ k →
      b'.usersRegistered[id]? = b.usersRegistered[id]?)
    (hcur : ∀ id : IdT, id ≠ k →
      s'.curMinData.index[id]? = s.curMinData.index[id]?)
    (hself : (s'.curMinData.index[k]?).isSome) (id : IdT)
    (hid : s'.curMinData.index[id]? = none) :
    (d.userState id).basic = none ∧ b'.usersRegistered[id]? = none := by
  have hne : id ≠ k := by
    rintro rfl
    rw [hid] at hself
    cases hself
  rw [hb id hne]
  rw [hcur id hne] at hid
  exact h.strangers id hid

theorem BatchInTune.dealt_nonneg (h : BatchInTune s d b renames) (id : IdT) :
    0 ≤ dealt b.dealsWon id := by
  rw [dealt]
  cases ha : b.dealsWon[id]? with
  | none => exact (BitVec.toInt_zero (w := _)).ge
  | some a => exact (h.positive id a ha).le

theorem toInt_winnings_lt (a : MonetaryT dm) :
    a.toInt < 2 ^ (8 * dm.sizeofLong - 1) := by
  exact_mod_cast BitVec.toInt_lt (x := a)

theorem dealt_of_none (h : b.dealsWon[id]? = none) :
    dealt b.dealsWon id = 0 := by
  rw [dealt, h]
  exact BitVec.toInt_zero

/-! ## §3  Messages -/

def renamesAfter (renames : List IdT) : ClientMessage dm → List IdT
  | .renamed msg => msg.userId :: renames
  | _ => renames

namespace BatchInTune

variable {cur prev : UserDataStorage dm} {second : Fin 60}

theorem toInt_of_known (hs : s.InStep) (hu : s.curMinData.index[id]? = some u) :
    0 ≤ id.toInt ∧ id.toInt < s.newUserId.toInt :=
  (hs.known id).mp (by rw [hu]; rfl)

theorem toInt_fakeId (h : BatchInTune s d b renames) (hs : s.InStep) :
    s.fakeId.toInt = s.count.toInt - 1 := by
  have hcount := hs.count
  have hcounted := h.counted
  rw [Strategy.fakeId, Int32.toInt_add, show invalidId.toInt = -1 from rfl,
    Int.bmod_eq_of_le (by omega) (by omega)]
  omega

theorem register (h : BatchInTune s d b renames) {name : BufferT}
    (hid : s.curMinData.index[s.newUserId]? = none)
    (hcounter : (s.newUserId + 1).toInt = s.newUserId.toInt + 1)
    (hcur : s.curMinData.Becomes s.newUserId { id := s.newUserId, name } cur)
    (hprev : s.prevMinData.Becomes s.newUserId { id := s.newUserId, name }
      prev) :
    BatchInTune { s with
      curMinData := cur
      prevMinData := prev
      newUserId := s.newUserId + 1 } d
      (b.record second (.registered ⟨⟨s.newUserId⟩, name⟩)) renames := by
  obtain ⟨hbasic, hnone⟩ := h.strangers _ hid
  have hunmentioned := fun hmentioned =>
    lt_irrefl _ (h.mentioned s.newUserId hmentioned)
  have hdeals : b.dealsWon[s.newUserId]? = none :=
    Option.not_isSome_iff_eq_none.mp fun hsome =>
      hunmentioned (.inr (.inr hsome))
  have hcount : renames.count s.newUserId = 0 :=
    List.count_eq_zero.mpr fun hmem =>
      hunmentioned (.inl ((h.renamed _).mpr hmem))
  have hregistered : ∀ id : IdT, (b.record second
      (.registered ⟨⟨s.newUserId⟩, name⟩)).usersRegistered[id]? =
        if s.newUserId = id then some (b.usersRegistered[id]?.getD name)
        else b.usersRegistered[id]? := fun id => getElem?_insertIfNew ..
  have hother : ∀ id : IdT, id ≠ s.newUserId → (b.record second
      (.registered ⟨⟨s.newUserId⟩, name⟩)).usersRegistered[id]? =
        b.usersRegistered[id]? := by
    intro id hne
    rw [hregistered, if_neg (Ne.symm hne)]
  refine ⟨h.users_change s.newUserId (fun id hne => ⟨hother id hne, rfl, rfl⟩)
    (fun id hne => hcur.other hne) (fun id hne => hprev.other hne)
    (fun _ _ => rfl) ?_,
    h.strangers_change s.newUserId hother (fun id hne => hcur.other hne) ?_,
    h.renamed, ?_, h.positive, h.unused, h.counted⟩
  · intro u v hu hv
    cases hcur.self.symm.trans hu
    cases hprev.self.symm.trans hv
    rw [hcount]
    refine ⟨.inr ⟨hbasic, name, ?_, rfl⟩, Nat.zero_le _,
      fun later heq => absurd heq (Nat.succ_ne_zero later).symm, ?_, ?_, ?_⟩
    · rw [hregistered, if_pos rfl, hnone, Option.getD_none]
    · have hinactive : (d.userState s.newUserId).isActive = false := by
        cases hstate : d.userState s.newUserId with
        | active u =>
            rw [hstate] at hbasic
            cases hbasic
        | silent _ | unregistered => rfl
      rw [CoreRatingData.rated_eq_none hinactive, if_pos rfl]
      rfl
    · rw [show dealt (b.record second
        (.registered ⟨⟨s.newUserId⟩, name⟩)).dealsWon s.newUserId = 0 from
          dealt_of_none hdeals, add_zero]
    · exact (BitVec.toInt_zero (w := _)).ge
  · show (cur.index[s.newUserId]?).isSome
    rw [hcur.self]
    rfl
  · intro id hmentioned
    show id.toInt < (s.newUserId + 1).toInt
    rw [hcounter]
    exact (h.mentioned id hmentioned).trans (lt_add_one _)

theorem rename (h : BatchInTune s d b renames) (hs : s.InStep)
    {newName : BufferT} (hu : s.curMinData.index[id]? = some u)
    (hv : s.prevMinData.index[id]? = some v) (hfew : renames.count id < 3)
    (hcur : s.curMinData.Becomes id { u with
      nameList := pushHistory u.nameList u.name, name := newName } cur)
    (hprev : s.prevMinData.Becomes id { v with
      nameList := pushHistory v.nameList v.name, name := newName } prev) :
    BatchInTune { s with curMinData := cur, prevMinData := prev } d
      (b.record second (.renamed ⟨⟨id⟩, newName⟩)) (id :: renames) := by
  have hbefore := h.users id u v hu hv
  have hrenamed : ∀ k : IdT, (b.record second
      (.renamed ⟨⟨id⟩, newName⟩)).usersRenamed[k]? =
        if id = k then some (b.usersRenamed[k]?.getD newName)
        else b.usersRenamed[k]? := fun k => getElem?_insertIfNew ..
  have hold : ∀ {age : ℕ} {name : BufferT}, u.names[age]? = some name →
      age ≤ 5 → ({ u with
        nameList := pushHistory u.nameList u.name
        name := newName } : FullUserDataEx dm).names[age + 1]? = some name :=
    fun hname hage => FullUserDataEx.names_rename hname
      (Nat.lt_succ_of_le hage) newName
  refine ⟨h.users_change id (fun k hne => ⟨rfl, ?_, rfl⟩)
    (fun k hne => hcur.other hne) (fun k hne => hprev.other hne)
    (fun k hne => List.count_cons_of_ne (Ne.symm hne)) ?_,
    h.strangers_change id (fun _ _ => rfl) (fun k hne => hcur.other hne) ?_,
    fun k => ?_, fun k hmentioned => ?_, h.positive, h.unused, h.counted⟩
  · rw [hrenamed, if_neg (Ne.symm hne)]
  · intro u' v' hu' hv'
    cases hcur.self.symm.trans hu'
    cases hprev.self.symm.trans hv'
    rw [List.count_cons_self]
    refine ⟨?_, hfew, fun later hlater => ?_, hbefore.won, hbefore.deals,
      hbefore.nonneg⟩
    · rcases hbefore.present with ⟨hnone, basic, age, hbasic, hage, hname⟩ |
        ⟨hnone, name, hregistered, hname⟩
      · exact .inl ⟨hnone, basic, age + 1, hbasic, by omega,
          hold hname (by omega)⟩
      · exact .inr ⟨hnone, name, hregistered, hold hname (by omega)⟩
    · obtain rfl := Nat.succ_injective hlater
      rw [hrenamed, if_pos rfl]
      cases hcount : renames.count id with
      | zero =>
          have hunrenamed : b.usersRenamed[id]? = none :=
            Option.not_isSome_iff_eq_none.mp fun hsome =>
              List.count_eq_zero.mp hcount ((h.renamed id).mp hsome)
          rw [hunrenamed]
          exact ⟨newName, rfl, rfl⟩
      | succ later =>
          obtain ⟨name, hfirst, hname⟩ := hbefore.renamed later hcount
          rw [hfirst]
          exact ⟨name, rfl, hold hname (by omega)⟩
  · show (cur.index[id]?).isSome
    rw [hcur.self]
    rfl
  · rw [hrenamed, List.mem_cons, ← h.renamed]
    by_cases heq : id = k
    · rw [if_pos heq]
      exact ⟨fun _ => .inl heq.symm, fun _ => rfl⟩
    · rw [if_neg heq]
      exact ⟨.inr, fun hk => hk.resolve_left (Ne.symm heq)⟩
  · rw [hrenamed] at hmentioned
    split at hmentioned
    · next heq => exact heq ▸ (toInt_of_known hs hu).2
    · exact h.mentioned k hmentioned

theorem change (h : BatchInTune s d b renames) (hs : s.InStep)
    {changes : Std.TreeMap IdT ConnectTimeT} {value : ConnectTimeT}
    (hchanges : changes = b.connectionChanges.insert id value)
    (hu : s.curMinData.index[id]? = some u)
    (hv : s.prevMinData.index[id]? = some v)
    (hcur : s.curMinData.Becomes id u' cur)
    (hprev : s.prevMinData.Becomes id v' prev) (hnames : u'.names = u.names)
    (hwon : u'.winnings = u.winnings) (hwon' : v'.winnings = v.winnings) :
    BatchInTune { s with curMinData := cur, prevMinData := prev } d
      { b with connectionChanges := changes } renames := by
  refine ⟨h.users_change id (fun k hne => ⟨rfl, rfl, rfl⟩)
    (fun k hne => hcur.other hne) (fun k hne => hprev.other hne)
    (fun _ _ => rfl) ?_,
    h.strangers_change id (fun _ _ => rfl) (fun k hne => hcur.other hne) ?_,
    h.renamed, fun k hmentioned => ?_, h.positive, h.unused, h.counted⟩
  · intro w w' hw hw'
    cases hcur.self.symm.trans hw
    cases hprev.self.symm.trans hw'
    exact (h.users id u v hu hv).congr ⟨rfl, rfl, rfl⟩ hnames hwon hwon'
  · show (cur.index[id]?).isSome
    rw [hcur.self]
    rfl
  · rw [hchanges, getElem?_insert] at hmentioned
    split at hmentioned
    · next heq => exact heq ▸ (toInt_of_known hs hu).2
    · exact h.mentioned k hmentioned

theorem deal (h : BatchInTune s d b renames) (hs : s.InStep)
    {winnings : MonetaryT dm} (hpos : 0 < winnings.toInt)
    (hu : s.curMinData.index[id]? = some u)
    (hv : s.prevMinData.index[id]? = some v)
    (hsum : (u.winnings + winnings).toInt =
      u.winnings.toInt + winnings.toInt)
    (hcur : s.curMinData.Becomes id { u with
      winningsHistory := pushHistory u.winningsHistory u.winnings
      winnings := u.winnings + winnings } cur) :
    BatchInTune { s with curMinData := cur } d
      (b.record second (.dealWon ⟨⟨id⟩, winnings⟩)) renames := by
  have hbefore := h.users id u v hu hv
  have hdealt := h.dealt_nonneg id
  have hdeals : ∀ k : IdT, (b.record second
      (.dealWon ⟨⟨id⟩, winnings⟩)).dealsWon[k]? =
        if id = k then some ((b.dealsWon[id]?).getD 0 + winnings)
        else b.dealsWon[k]? := fun k => getElem?_insert ..
  -- what is won in a minute does not exceed what is won at all
  have hadd : ((b.dealsWon[id]?).getD 0 + winnings).toInt =
      dealt b.dealsWon id + winnings.toInt := by
    refine toInt_winnings_add hpos.le ?_
    have hwon := hbefore.deals
    have hnonneg := hbefore.nonneg
    have hle : dealt b.dealsWon id + winnings.toInt ≤
        (u.winnings + winnings).toInt := by omega
    exact hle.trans_lt (toInt_winnings_lt _)
  have hknown := toInt_of_known hs hu
  have hfakeId := h.toInt_fakeId hs
  have hcount := hs.count
  refine ⟨h.users_change id (fun k hne => ⟨rfl, rfl, ?_⟩)
    (fun k hne => hcur.other hne) (fun _ _ => rfl) (fun _ _ => rfl) ?_,
    h.strangers_change id (fun _ _ => rfl) (fun k hne => hcur.other hne) ?_,
    h.renamed, fun k hmentioned => ?_, fun k a ha => ?_, fun k hk => ?_,
    h.counted⟩
  · rw [hdeals, if_neg (Ne.symm hne)]
  · intro u' v' hu' hv'
    cases hcur.self.symm.trans hu'
    cases hv.symm.trans hv'
    refine ⟨hbefore.present, hbefore.few, hbefore.renamed, hbefore.won, ?_,
      hbefore.nonneg⟩
    have hafter : dealt (b.record second
        (.dealWon ⟨⟨id⟩, winnings⟩)).dealsWon id =
          dealt b.dealsWon id + winnings.toInt := by
      rw [dealt, hdeals, if_pos rfl, Option.getD_some, hadd]
    rw [hsum, hbefore.deals, hafter, add_assoc]
  · show (cur.index[id]?).isSome
    rw [hcur.self]
    rfl
  · rw [hdeals] at hmentioned
    split at hmentioned
    · next heq => exact heq ▸ hknown.2
    · exact h.mentioned k hmentioned
  · rw [hdeals] at ha
    split at ha
    · cases ha
      rw [hadd]
      omega
    · exact h.positive k a ha
  · rw [hdeals, if_neg]
    · exact h.unused k hk
    · rintro rfl
      change id.toInt ≤ s.fakeId.toInt at hk
      omega

theorem toInt_sixSixSix : (BitVec.ofNat (8 * dm.sizeofLong) 666).toInt = 666 := by
  cases dm <;> rfl

theorem fake (h : BatchInTune s d b renames) (hs : s.InStep) {type : ℕ}
    {message : ClientMessage dm} (hmessage : s.fakeMessage type = .ok message)
    (hfake : s.fakeId.toInt < 0) (hrange : -2 ^ 31 + 1 < s.count.toInt) :
    BatchInTune { s with count := s.count - 1 } d (b.record second message)
      (renamesAfter renames message) := by
  have hcount := hs.count
  have hcounter := hs.counter
  have hnext : (s.count - 1).toInt = s.count.toInt - 1 := by
    rw [Int32.toInt_sub, show (1 : Int32).toInt = 1 from rfl]
    exact Int.bmod_eq_of_le (by omega) (by omega)
  have hfakeId := h.toInt_fakeId hs
  have hcounted : -2 ^ 31 < (s.count - 1).toInt := by omega
  have hne : ∀ {id : IdT} {u : FullUserDataEx dm},
      s.curMinData.index[id]? = some u → s.fakeId ≠ id := by
    rintro id u hu rfl
    exact absurd (toInt_of_known hs hu).1 (not_le.mpr hfake)
  have hunused : ∀ {id : IdT},
      id.toInt ≤ ({ s with count := s.count - 1 } : Strategy dm).fakeId.toInt →
        id.toInt < s.fakeId.toInt := by
    intro id hid
    rw [Strategy.fakeId, Int32.toInt_add, show invalidId.toInt = -1 from rfl,
      Int.bmod_eq_of_le (by dsimp only; omega) (by dsimp only; omega)] at hid
    dsimp only at hid
    omega
  have hold : ∀ id : IdT, id.toInt ≤
      ({ s with count := s.count - 1 } : Strategy dm).fakeId.toInt →
        b.dealsWon[id]? = none := fun id hid => h.unused id (hunused hid).le
  unfold Strategy.fakeMessage at hmessage
  split at hmessage <;> cases hmessage
  · -- a rename
    have hrenamed : ∀ k : IdT, (b.record second
        (.renamed ⟨⟨s.fakeId⟩, Strategy.mrFake⟩)).usersRenamed[k]? =
          if s.fakeId = k then some (b.usersRenamed[k]?.getD Strategy.mrFake)
          else b.usersRenamed[k]? := fun k => getElem?_insertIfNew ..
    refine ⟨fun id u v hu hv => ?_, h.strangers, fun k => ?_,
      fun k hmentioned => ?_, h.positive, hold, hcounted⟩
    · show UserInTune _ _ _ ((s.fakeId :: renames).count id) u v
      rw [List.count_cons_of_ne (hne hu)]
      refine (h.users id u v hu hv).congr ⟨rfl, ?_, rfl⟩ rfl rfl rfl
      rw [hrenamed, if_neg (hne hu)]
    · show _ ↔ k ∈ s.fakeId :: renames
      rw [hrenamed, List.mem_cons, ← h.renamed]
      by_cases heq : s.fakeId = k
      · rw [if_pos heq]
        exact ⟨fun _ => .inl heq.symm, fun _ => rfl⟩
      · rw [if_neg heq]
        exact ⟨.inr, fun hk => hk.resolve_left (Ne.symm heq)⟩
    · rw [hrenamed] at hmentioned
      split at hmentioned
      · next heq => exact heq ▸ hfake.trans_le hcounter
      · exact h.mentioned k hmentioned
  · -- a connection
    refine ⟨fun id u v hu hv =>
        (h.users id u v hu hv).congr ⟨rfl, rfl, rfl⟩ rfl rfl rfl,
      h.strangers, h.renamed, fun k hmentioned => ?_, h.positive, hold,
      hcounted⟩
    rw [show (b.record second (.connected ⟨s.fakeId⟩)).connectionChanges[k]? = _
      from getElem?_insert ..] at hmentioned
    split at hmentioned
    · next heq => exact heq ▸ hfake.trans_le hcounter
    · exact h.mentioned k hmentioned
  · -- the end of one
    refine ⟨fun id u v hu hv =>
        (h.users id u v hu hv).congr ⟨rfl, rfl, rfl⟩ rfl rfl rfl,
      h.strangers, h.renamed, fun k hmentioned => ?_, h.positive, hold,
      hcounted⟩
    rw [show (b.record second
      (.disconnected ⟨s.fakeId⟩)).connectionChanges[k]? = _
      from getElem?_insert ..] at hmentioned
    split at hmentioned
    · next heq => exact heq ▸ hfake.trans_le hcounter
    · exact h.mentioned k hmentioned
  · -- a deal
    have hdeals : ∀ k : IdT, (b.record second (.dealWon
        ⟨⟨s.fakeId⟩, BitVec.ofNat _ 666⟩)).dealsWon[k]? =
          if s.fakeId = k then
            some ((b.dealsWon[s.fakeId]?).getD 0 + BitVec.ofNat _ 666)
          else b.dealsWon[k]? := fun k => getElem?_insert ..
    refine ⟨fun id u v hu hv => ?_, h.strangers, h.renamed,
      fun k hmentioned => ?_, fun k a ha => ?_, fun k hk => ?_, hcounted⟩
    · refine (h.users id u v hu hv).congr ⟨rfl, rfl, ?_⟩ rfl rfl rfl
      rw [hdeals, if_neg (hne hu)]
    · rw [hdeals] at hmentioned
      split at hmentioned
      · next heq => exact heq ▸ hfake.trans_le hcounter
      · exact h.mentioned k hmentioned
    · rw [hdeals] at ha
      split at ha
      · cases ha
        rw [h.unused s.fakeId le_rfl, Option.getD_none]
        show 0 < (0#(8 * dm.sizeofLong) + BitVec.ofNat _ 666).toInt
        rw [BitVec.zero_add, toInt_sixSixSix]
        decide
      · exact h.positive k a ha
    · rw [hdeals, if_neg]
      · exact hold k hk
      · rintro rfl
        exact lt_irrefl _ (hunused hk)

/-- **A message of the client** leaves the batch in tune. -/
theorem record (h : BatchInTune s d b renames) (hs : s.InStep)
    {a : StrategyStep dm} {message : ClientMessage dm}
    (heffect : s.Effect a s' (some message)) (hrange : s.InRange a)
    (hfew : ∀ msg, message = .renamed msg → 0 ≤ msg.userId.toInt →
      renames.count msg.userId < 3) :
    BatchInTune s' d (b.record second message) (renamesAfter renames message) := by
  cases heffect with
  | userRegistered hfit hid hcounter hcur hprev =>
      exact h.register hid hcounter hcur hprev
  | userRenamed hdrawn hfit hu hv hcur hprev =>
      exact h.rename hs hu hv (hfew _ rfl (toInt_of_known hs hu).1) hcur hprev
  | userConnected hu hv hcur hprev =>
      exact h.change hs rfl hu hv hcur hprev rfl rfl rfl
  | userDisconnected hu hv hcur hprev =>
      exact h.change hs rfl hu hv hcur hprev rfl rfl rfl
  | userDealWon hpos hu hsum hcur =>
      obtain ⟨v, hv, -⟩ := hs.sameUser_of_cur hu
      exact h.deal hs hpos hu hv hsum hcur
  | fakeUser hmessage hfake => exact h.fake hs hmessage hfake hrange

end BatchInTune

end Change

/-! ## §4  The recalculation -/

/-- No two active users have won the same. -/
def UserDataStorage.Apart (s : UserDataStorage dm) : Prop :=
  (s.activeIds.map fun id => (s.user id).winnings).Nodup

instance (s : UserDataStorage dm) : Decidable s.Apart :=
  inferInstanceAs (Decidable (List.Nodup _))

theorem UserDataStorage.Housed.eq_of_apart {s : UserDataStorage dm}
    (h : s.Housed) (hapart : s.Apart) {id id' : IdT}
    {u u' : FullUserDataEx dm} (hu : s.index[id]? = some u)
    (hu' : s.index[id']? = some u') (hwon : u.winnings ≠ 0)
    (heq : u.winnings = u'.winnings) : id = id' := by
  refine List.inj_on_of_nodup_map hapart (h.mem_idsOf.mpr ⟨u, hu, ?_⟩)
    (h.mem_idsOf.mpr ⟨u', hu', ?_⟩) ?_
  · exact UserDataStorage.home_active.mpr hwon
  · exact UserDataStorage.home_active.mpr (heq ▸ hwon)
  · rw [UserDataStorage.user_of_index hu, UserDataStorage.user_of_index hu',
      heq]

theorem card_le_of_below {ids : Finset IdT} {bound : ℤ} (hbound : 0 ≤ bound)
    (h : ∀ id ∈ ids, 0 ≤ id.toInt ∧ id.toInt < bound) :
    (ids.card : ℤ) ≤ bound := by
  have hsub : ids.image Int32.toInt ⊆ Finset.Ico 0 bound := by
    intro i hi
    obtain ⟨id, hid, rfl⟩ := Finset.mem_image.mp hi
    exact Finset.mem_Ico.mpr (h id hid)
  have hcard : ids.card ≤ (bound - 0).toNat := by
    rw [← Int.card_Ico, ← Finset.card_image_of_injective ids
      fun _ _ => Int32.toInt_inj.mp]
    exact Finset.card_le_card hsub
  omega

theorem isActive_iff_rated {d : CoreRatingData dm} {id : IdT} :
    (d.userState id).isActive ↔ (d.rated id).isSome := by
  rw [CoreRatingData.isActive_iff, ← AList.lookup_isSome, CoreRatingData.rated,
    Option.isSome_map]

namespace BatchInTune

variable {s : Strategy dm} {d : CoreRatingData dm} {it : IterationData}
  {b : IncomingDataBuffer dm} {renames : List IdT} {id : IdT}
  {q : JobQueue n} {u v : FullUserDataEx dm}

theorem isActive_iff (h : UserInTune d b id (renames.count id) u v) :
    (d.userState id).isActive ↔ v.winnings ≠ 0 := by
  rw [isActive_iff_rated, ← Option.isSome_map (f := RatedData.amountWon), h.won]
  split <;> simp_all

/-- Everybody in the tables or in the batch's registrations is a user of the
client. -/
theorem known_of_registered (h : BatchInTune s d b renames) (hs : s.InStep)
    (hid : ((d.userState id).basic).isSome ∨
      (b.usersRegistered[id]?).isSome) :
    0 ≤ id.toInt ∧ id.toInt < s.newUserId.toInt := by
  cases hu : s.curMinData.index[id]? with
  | some u => exact toInt_of_known hs hu
  | none =>
      obtain ⟨hbasic, hregistered⟩ := h.strangers id hu
      rw [hbasic, hregistered] at hid
      rcases hid with hid | hid <;> cases hid

theorem card_knownUsers (h : BatchInTune s d b renames) (hs : s.InStep)
    (hdisj : d.Disjoint) :
    ((create d it b q).knownUsers.card : ℤ) ≤ s.newUserId.toInt := by
  have hbasic : ∀ {id : IdT}, (d.userState id).isRegistered →
      ((d.userState id).basic).isSome := by
    intro id hid
    rw [← UserState.isRegistered_eq_isSome]
    exact hid
  refine card_le_of_below hs.counter fun id hid => h.known_of_registered hs ?_
  simp only [knownUsers, Finset.mem_union, List.mem_toFinset,
    Std.TreeMap.mem_keys] at hid
  rcases hid with (hsilent | hactive) | hregistered
  · refine .inl (hbasic ?_)
    rw [UserState.isRegistered_eq,
      (CoreRatingData.isSilent_iff hdisj).mpr (AList.mem_keys.mpr hsilent),
      Bool.or_true]
  · refine .inl (hbasic ?_)
    rw [UserState.isRegistered_eq,
      (CoreRatingData.isActive_iff (d := d)).mpr (AList.mem_keys.mpr hactive),
      Bool.true_or]
  · exact .inr (Std.TreeMap.mem_iff_isSome_getElem?.mp hregistered)

theorem newWinnings_eq (h : BatchInTune s d b renames)
    (hu : s.curMinData.index[id]? = some u)
    (hv : s.prevMinData.index[id]? = some v) :
    newWinnings d.rated b.dealsWon id = u.winnings := by
  have hbefore := h.users id u v hu hv
  have hold : oldWinnings d.rated id = v.winnings := by
    rw [oldWinnings, hbefore.won]
    split
    · next hzero => exact hzero.symm
    · rfl
  rw [newWinnings, hold, ← BitVec.toInt_inj, hbefore.deals, dealt]
  refine toInt_winnings_add (h.dealt_nonneg id) ?_
  show v.winnings.toInt + dealt b.dealsWon id < _
  rw [← hbefore.deals]
  exact toInt_winnings_lt u.winnings

/-- The recalculation of the batch completes. -/
theorem recalculate_completes (h : BatchInTune s d b renames) (hs : s.InStep)
    (hsettled : Settled d it) (hfits : b.Fits)
    (hroom : s.newUserId.toInt < 2 ^ 31) :
    ∃ c, (create d it b q).recalculate false = .ok c ∧
      Reranked d.rated ((create d it b q).batchState false) b.dealsWon
        c.userData := by
  have hdisj := hsettled.consistent.disjoint
  have hcard : ((create d it b q).knownUsers.card : ℤ) ≤ s.newUserId.toInt :=
    h.card_knownUsers hs hdisj
  refine recalculate_of_pos (s := create d it b q)
    ⟨hsettled.integrity, hdisj, hfits.seconds, rfl, rfl, by omega⟩ false
    h.positive fun id a r ha hr => ?_
  change b.dealsWon[id]? = some a at ha
  change d.rated id = some r at hr
  have hknown : 0 ≤ id.toInt ∧ id.toInt < s.newUserId.toInt :=
    h.known_of_registered hs <| .inl <| by
      rw [← UserState.isRegistered_eq_isSome, UserState.isRegistered_eq,
        isActive_iff_rated.mpr (by rw [hr]; rfl), Bool.true_or]
  obtain ⟨u, hu⟩ := Option.isSome_iff_exists.mp ((hs.known id).mpr hknown)
  obtain ⟨v, hv, -⟩ := hs.sameUser_of_cur hu
  have hbefore := h.users id u v hu hv
  have hold : r.amountWon = v.winnings := by
    have hwon := hbefore.won
    rw [hr, Option.map_some] at hwon
    split at hwon
    · cases hwon
    · exact Option.some_inj.mp hwon
  have hdeals := hbefore.deals
  rw [dealt, ha, Option.getD_some] at hdeals
  refine toInt_winnings_add (h.positive id a ha).le ?_
  rw [hold, ← hdeals]
  exact toInt_winnings_lt u.winnings

theorem present_of_user (h : UserInTune d b id (renames.count id) u v) :
    ((create d it b q).batchState false id).isRegistered := by
  rw [isRegistered_batchState, Bool.or_eq_true]
  change (d.userState id).isRegistered ∨ (b.usersRegistered[id]?).isSome
  rw [UserState.isRegistered_eq_isSome]
  rcases h.present with ⟨-, basic, age, hbasic, -⟩ |
    ⟨-, name, hregistered, -⟩
  · exact .inl (by rw [hbasic]; rfl)
  · exact .inr (by rw [hregistered]; rfl)

theorem isActive_recalculate (h : BatchInTune s d b renames)
    (hu : s.curMinData.index[id]? = some u)
    (hv : s.prevMinData.index[id]? = some v) {d' : CoreRatingData dm}
    (hranked : Reranked d.rated ((create d it b q).batchState false)
      b.dealsWon d') :
    (d'.userState id).isActive ↔ u.winnings ≠ 0 := by
  have hbefore := h.users id u v hu hv
  have hpresent : ((create d it b q).batchState false id).isRegistered :=
    present_of_user hbefore
  have hactive : ((create d it b q).batchState false id).isActive ↔
      v.winnings ≠ 0 := by
    rw [isActive_batchState]
    exact isActive_iff hbefore
  rw [UserState.isRegistered_eq] at hpresent
  have hdeals := hbefore.deals
  have hnonneg := hbefore.nonneg
  have hzero : ∀ a : MonetaryT dm, a = 0 ↔ a.toInt = 0 := fun a => by
    rw [← BitVec.toInt_inj]
    exact iff_of_eq (congrArg _ BitVec.toInt_zero)
  rw [hranked.active]
  cases ha : b.dealsWon[id]? with
  | some a =>
      have hpos := h.positive id a ha
      rw [dealt, ha, Option.getD_some] at hdeals
      rw [Option.isSome_some, Bool.and_true, hpresent, ne_eq, hzero]
      exact ⟨fun _ => by omega, fun _ => rfl⟩
  | none =>
      rw [dealt_of_none ha, add_zero] at hdeals
      rw [Option.isSome_none, Bool.and_false, Bool.or_false, hactive,
        BitVec.toInt_inj.mp hdeals]

theorem won_recalculate (h : BatchInTune s d b renames)
    (hu : s.curMinData.index[id]? = some u)
    (hv : s.prevMinData.index[id]? = some v) {d' : CoreRatingData dm}
    (hranked : Reranked d.rated ((create d it b q).batchState false)
      b.dealsWon d') :
    (d'.rated id).map RatedData.amountWon =
      if u.winnings = 0 then none else some u.winnings := by
  have hactive := h.isActive_recalculate hu hv hranked
  split
  · next hzero =>
    cases hr : d'.rated id with
    | none => rfl
    | some r =>
        refine absurd hzero (hactive.mp ?_)
        rw [isActive_iff_rated, hr]
        rfl
  · next hne =>
    have hwon := hranked.winnings id (hactive.mpr hne)
    rw [h.newWinnings_eq hu hv] at hwon
    obtain ⟨r, hr⟩ := Option.isSome_iff_exists.mp
      (isActive_iff_rated.mp (hactive.mpr hne))
    rw [CoreRatingData.winnings, hr, Option.map_some, Option.getD_some] at hwon
    rw [hr, Option.map_some, hwon]

theorem name_recalculate (h : BatchInTune s d b renames)
    (hu : s.curMinData.index[id]? = some u)
    (hv : s.prevMinData.index[id]? = some v) :
    ∃ basic age, ((create d it b q).batchState false id).basic = some basic ∧
      age ≤ 2 ∧ u.names[age]? = some basic.name := by
  have hbefore := h.users id u v hu hv
  have hfew := hbefore.few
  let registered := (b.usersRegistered[id]?).elim (d.userState id)
    ((d.userState id).registered ·)
  let renamed := (b.usersRenamed[id]?).elim registered (registered.renamed ·)
  have hstate : (create d it b q).batchState false id =
      (b.connectionChanges[id]?).elim renamed (renamed.connected ·) := rfl
  -- the registration
  obtain ⟨basic, age, hbasic, hage, hname⟩ : ∃ basic age,
      registered.basic = some basic ∧
      (renames.count id = 0 → age ≤ 2) ∧ u.names[age]? = some basic.name := by
    dsimp only [registered]
    rcases hbefore.present with ⟨hnone, basic, age, hbasic, hage, hname⟩ |
      ⟨hnone, name, hregistered, hname⟩
    · rw [hnone]
      exact ⟨basic, age, hbasic, fun hzero => by omega, hname⟩
    · rw [hregistered, Option.elim_some, UserState.basic_registered, hnone]
      exact ⟨_, _, rfl, fun hzero => by omega, hname⟩
  -- the first rename
  obtain ⟨basic, age, hbasic, hage, hname⟩ : ∃ basic age,
      renamed.basic = some basic ∧ age ≤ 2 ∧
      u.names[age]? = some basic.name := by
    dsimp only [renamed]
    cases hcount : renames.count id with
    | zero =>
        have hunrenamed : b.usersRenamed[id]? = none :=
          Option.not_isSome_iff_eq_none.mp fun hsome =>
            List.count_eq_zero.mp hcount ((h.renamed id).mp hsome)
        rw [hunrenamed]
        exact ⟨basic, age, hbasic, hage hcount, hname⟩
    | succ later =>
        obtain ⟨name, hrenamed, hname⟩ := hbefore.renamed later hcount
        rw [hrenamed, Option.elim_some, UserState.basic_renamed, hbasic]
        exact ⟨_, later, rfl, by omega, hname⟩
  -- the connection
  rw [hstate]
  cases b.connectionChanges[id]? with
  | none => exact ⟨basic, age, hbasic, hage, hname⟩
  | some second =>
      refine ⟨basic.reconnect second, age, ?_, hage, ?_⟩
      · rw [Option.elim_some, UserState.basic_connected, hbasic]
        rfl
      · rw [hname, BasicUserData.reconnect]
        split <;> rfl

/-- **The batch behind a recalculation** is an empty one, and in tune with the
client's next minute. -/
theorem recalculate (h : BatchInTune s d b renames) (hs : s.InStep)
    (hsettled : Settled d it) (hfits : b.Fits)
    {c : RatingCalculatorImpl dm n}
    (hc : (create d it b q).recalculate false = .ok c)
    (hranked : Reranked d.rated ((create d it b q).batchState false)
      b.dealsWon c.userData) {s' : Strategy dm}
    (hcur : s'.curMinData = s.curMinData)
    (hprev : s'.prevMinData = s.prevMinData.setNextMinuteData s.curMinData)
    (hcount : s'.count = s.count) : BatchInTune s' c.userData {} [] := by
  have hrecords := (recalculate_of_ok (s := create d it b q)
    hsettled.consistent.disjoint hfits.seconds hc).2
  obtain ⟨-, -, -, hindex⟩ := hs.cur.setNextMinuteData s.prevMinData
  have hempty : ∀ id : IdT, (({} : IncomingDataBuffer dm).dealsWon)[id]? =
      none := fun id => Std.TreeMap.getElem?_emptyc
  refine ⟨fun id u v hu hv => ?_, fun id hid => ⟨?_, ?_⟩, fun id => ?_,
    fun id hid => ?_, fun id a ha => ?_, fun id _ => hempty id,
    hcount ▸ h.counted⟩
  · rw [hcur] at hu
    rw [hprev, hindex, hu, Option.map_some] at hv
    cases hv
    obtain ⟨v, hv, -⟩ := hs.sameUser_of_cur hu
    obtain ⟨basic, age, hbasic, hage, hname⟩ : ∃ basic age,
        ((create d it b q).batchState false id).basic = some basic ∧
          age ≤ 2 ∧ u.names[age]? = some basic.name :=
      h.name_recalculate hu hv
    refine ⟨.inl ⟨Std.TreeMap.getElem?_emptyc, basic, age, ?_, hage, hname⟩,
      Nat.zero_le _, fun later heq => absurd heq (Nat.succ_ne_zero later).symm,
      h.won_recalculate hu hv hranked, ?_, (hs.winnings id u hu).1⟩
    · exact (hrecords id).1.trans hbasic
    · rw [dealt_of_none (hempty id), add_zero]
  · rw [hcur] at hid
    obtain ⟨hbasic, hregistered⟩ := h.strangers id hid
    have hstranger : ((create d it b q).batchState false id).isRegistered =
        false := by
      rw [isRegistered_batchState]
      change ((d.userState id).isRegistered ||
        (b.usersRegistered[id]?).isSome) = false
      rw [UserState.isRegistered_eq_isSome, hbasic, hregistered]
      rfl
    rw [UserState.isRegistered_eq_isSome] at hstranger
    exact (hrecords id).1.trans (Option.not_isSome_iff_eq_none.mp
      (by rw [hstranger]; exact Bool.false_ne_true))
  · exact Std.TreeMap.getElem?_emptyc
  · simp
  · simp at hid
  · cases (hempty id).symm.trans ha

/-- **The two ratings** are the same, if no two users draw level. -/
theorem rating_recalculate (h : BatchInTune s d b renames) (hs : s.InStep)
    {d' : CoreRatingData dm}
    (hranked : Reranked d.rated ((create d it b q).batchState false)
      b.dealsWon d') (hapart : s.curMinData.Apart) :
    d'.rating.map UserRef.owner =
      (s.prevMinData.setNextMinuteData s.curMinData).rating := by
  obtain ⟨-, hnext, -, hindex⟩ := hs.cur.setNextMinuteData s.prevMinData
  have hwon : ∀ {id : IdT} {u : FullUserDataEx dm},
      s.curMinData.index[id]? = some u →
        ((s.prevMinData.setNextMinuteData s.curMinData).user id).winnings =
          u.winnings := by
    intro id u hu
    have hv := hindex id
    rw [hu, Option.map_some] at hv
    rw [UserDataStorage.user_of_index hv]
  -- the same users
  have hmem : ∀ id, id ∈ d'.rating.map UserRef.owner ↔
      id ∈ (s.prevMinData.setNextMinuteData s.curMinData).rating := by
    intro id
    rw [hranked.integrity.mem_owners, hnext.mem]
    cases hu : s.curMinData.index[id]? with
    | some u =>
        obtain ⟨v, hv, -⟩ := hs.sameUser_of_cur hu
        rw [h.isActive_recalculate hu hv hranked, hwon hu]
    | none =>
        obtain ⟨hbasic, hregistered⟩ := h.strangers id hu
        have hstranger := hranked.registered id
        rw [isRegistered_batchState] at hstranger
        change _ = ((d.userState id).isRegistered ||
          (b.usersRegistered[id]?).isSome) at hstranger
        rw [UserState.isRegistered_eq_isSome (d.userState id), hbasic,
          hregistered, UserState.isRegistered_eq] at hstranger
        have hinactive : (d'.userState id).isActive = false :=
          (Bool.or_eq_false_iff.mp hstranger).1
        have hv := hindex id
        rw [hu, Option.map_none] at hv
        rw [hinactive, UserDataStorage.user,
          Std.TreeMap.getD_eq_getD_getElem?, hv]
        simp
  have hknown : ∀ {id : IdT}, id ∈ d'.rating.map UserRef.owner →
      ∃ u, s.curMinData.index[id]? = some u ∧ u.winnings ≠ 0 ∧
        d'.winnings id = u.winnings := by
    intro id hid
    have hactive := hranked.integrity.mem_owners.mp hid
    cases hu : s.curMinData.index[id]? with
    | some u =>
        obtain ⟨v, hv, -⟩ := hs.sameUser_of_cur hu
        refine ⟨u, rfl, (h.isActive_recalculate hu hv hranked).mp hactive, ?_⟩
        rw [hranked.winnings id hactive, h.newWinnings_eq hu hv]
    | none =>
        have hv := hindex id
        rw [hu, Option.map_none] at hv
        have hne := (hnext.mem id).mp ((hmem id).mp hid)
        rw [UserDataStorage.user, Std.TreeMap.getD_eq_getD_getElem?, hv] at hne
        exact absurd rfl hne
  have hperm := (List.perm_ext_iff_of_nodup hranked.integrity.nodup_owners
    hnext.nodup).mpr hmem
  refine List.Perm.eq_of_pairwise (fun id id' hid hid' hge hle => ?_) ?_
    hnext.sorted hperm
  · obtain ⟨u, hu, hne, -⟩ := hknown hid
    obtain ⟨u', hu', -, -⟩ := hknown ((hmem id').mpr hid')
    rw [hwon hu, hwon hu'] at hge hle
    exact hs.cur.eq_of_apart hapart hu hu' hne
      (BitVec.toInt_inj.mp (le_antisymm hle hge))
  · rw [List.pairwise_map]
    refine hranked.integrity.sorted.imp_of_mem fun {p p'} hp hp' hle => ?_
    obtain ⟨u, hu, -, hpu⟩ := hknown (List.mem_map_of_mem hp)
    obtain ⟨u', hu', -, hpu'⟩ := hknown (List.mem_map_of_mem hp')
    rw [hwon hu, hwon hu', ← hpu, ← hpu']
    exact hle

end BatchInTune

end RatingService
