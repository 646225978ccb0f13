import RatingService.Service.Minutes
import RatingService.Service.RatingCapacity

/-!
# Where the minute falls

The same messages, cut into minutes in different places. Deals of one minute
are added up before they are worked in and only the last connection change
counts; deals of different minutes find a user in different tables. The books
are the same in the end: what a run leaves of a user is a function of his
messages.

- §1: orderly messages.
- §2: one minute of them.
- §3: a run.
- §4: two runs over the same messages.
-/

namespace RatingService

open Runs Dispatches

variable {dm : DataModel} {n : ℕ} {id : IdT}

/-! ## §1  Orderly messages -/

def DataModel.amountLimit (dm : DataModel) : ℤ := 2 ^ (8 * dm.sizeofLong - 1)

section Sums

variable {amounts amounts' : List (MonetaryT dm)}

theorem sum_toInt_nonneg (hpos : ∀ a ∈ amounts, 0 < a.toInt) :
    0 ≤ (amounts.map BitVec.toInt).sum := by
  refine List.sum_nonneg fun x hx => ?_
  obtain ⟨a, ha, rfl⟩ := List.mem_map.mp hx
  exact le_of_lt (hpos a ha)

theorem toInt_sum (hpos : ∀ a ∈ amounts, 0 < a.toInt)
    (hlt : (amounts.map BitVec.toInt).sum < dm.amountLimit) :
    amounts.sum.toInt = (amounts.map BitVec.toInt).sum := by
  induction amounts with
  | nil => exact BitVec.toInt_zero
  | cons a amounts ih =>
      have hhead := hpos a List.mem_cons_self
      have htail : ∀ b ∈ amounts, 0 < b.toInt := fun b hb =>
        hpos b (List.mem_cons_of_mem a hb)
      have hnonneg := sum_toInt_nonneg htail
      rw [List.map_cons, List.sum_cons] at hlt ⊢
      have hsum := ih htail (by omega)
      rw [List.sum_cons,
        RatingCalculatorImpl.toInt_winnings_add (by omega), hsum]
      rw [hsum]
      exact hlt

theorem toInt_sum_append (hpos : ∀ a ∈ amounts ++ amounts', 0 < a.toInt)
    (hlt : ((amounts ++ amounts').map BitVec.toInt).sum < dm.amountLimit) :
    (amounts.sum + amounts'.sum).toInt =
        amounts.sum.toInt + amounts'.sum.toInt ∧
      amounts'.sum.toInt = (amounts'.map BitVec.toInt).sum := by
  have hleft : ∀ a ∈ amounts, 0 < a.toInt := fun a ha =>
    hpos a (List.mem_append_left _ ha)
  have hright : ∀ a ∈ amounts', 0 < a.toInt := fun a ha =>
    hpos a (List.mem_append_right _ ha)
  have hwhole := toInt_sum hpos hlt
  rw [List.map_append, List.sum_append] at hlt hwhole
  rw [List.sum_append] at hwhole
  have hnonneg := sum_toInt_nonneg hleft
  have hnonneg' := sum_toInt_nonneg hright
  have hsum := toInt_sum hleft (by omega)
  have hsum' := toInt_sum hright (by omega)
  exact ⟨by rw [hwhole, hsum, hsum'], hsum'⟩

end Sums

namespace Dispatches

/-- **Orderly messages**: a user is registered before any other message about
him, deals are positive, and the sum of a user's deals does not overflow. -/
structure Orderly (msgs : Dispatches dm) : Prop where
  first : ∀ pre msg post, msgs = pre ++ msg :: post →
    registrations msg.2.userId [msg] = [] →
    registrations msg.2.userId pre ≠ []
  positive : ∀ id, ∀ a ∈ deals id msgs, 0 < a.toInt
  bounded : ∀ id, ((deals id msgs).map BitVec.toInt).sum < dm.amountLimit

section Orderly

variable {msgs msgs' : Dispatches dm}

theorem Orderly.prefix (h : Orderly (msgs ++ msgs')) : Orderly msgs where
  first := by
    intro pre msg post hsplit
    refine h.first pre msg (post ++ msgs') ?_
    rw [hsplit, List.append_assoc, List.cons_append]
  positive := by
    intro id a ha
    refine h.positive id a ?_
    rw [deals_append]
    exact List.mem_append_left _ ha
  bounded := by
    intro id
    have hpos := h.positive id
    have hlt := h.bounded id
    rw [deals_append] at hpos hlt
    rw [List.map_append, List.sum_append] at hlt
    have hrest := sum_toInt_nonneg fun a ha =>
      hpos a (List.mem_append_right _ ha)
    omega

/-- A message about a user who is not registered in it comes behind his
registration. -/
theorem Orderly.registered (h : Orderly msgs) {msg : Fin 60 × ClientMessage dm}
    (hmsg : msg ∈ msgs) : registrations msg.2.userId msgs ≠ [] := by
  obtain ⟨pre, post, rfl⟩ := List.append_of_mem hmsg
  rw [registrations_append, ← List.singleton_append, registrations_append]
  by_cases hself : registrations msg.2.userId [msg] = []
  · exact List.append_ne_nil_of_left_ne_nil (h.first pre msg post rfl hself) _
  · exact List.append_ne_nil_of_right_ne_nil _
      (List.append_ne_nil_of_left_ne_nil hself _)

theorem Orderly.not_mentioned (h : Orderly msgs)
    (hreg : registrations id msgs = []) :
    ∀ msg ∈ msgs, msg.2.userId ≠ id := by
  rintro msg hmsg rfl
  exact h.registered hmsg hreg

theorem deals_eq_nil (h : ∀ msg ∈ msgs, msg.2.userId ≠ id) :
    deals id msgs = [] := by
  refine List.filterMap_eq_nil_iff.mpr ?_
  rintro ⟨second, msg⟩ hmsg
  have hne := h _ hmsg
  cases msg with
  | dealWon msg => exact if_neg hne
  | _ => rfl

theorem connections_eq_nil (h : ∀ msg ∈ msgs, msg.2.userId ≠ id) :
    connections id msgs = [] := by
  refine List.filterMap_eq_nil_iff.mpr ?_
  rintro ⟨second, msg⟩ hmsg
  have hne := h _ hmsg
  cases msg with
  | connected msg => exact if_neg hne
  | disconnected msg => exact if_neg hne
  | _ => rfl

theorem Orderly.registered_of_deals (h : Orderly (msgs ++ msgs'))
    (hdeals : deals id msgs' ≠ []) : registrations id (msgs ++ msgs') ≠ [] := by
  intro hreg
  have hnil := deals_eq_nil (h.not_mentioned hreg)
  rw [deals_append] at hnil
  exact hdeals (List.append_eq_nil_iff.mp hnil).2

theorem registrations_eq_nil (h : ∀ msg ∈ msgs, msg.2.userId ≠ id) :
    registrations id msgs = [] := by
  refine List.filterMap_eq_nil_iff.mpr ?_
  rintro ⟨second, msg⟩ hmsg
  have hne := h _ hmsg
  cases msg with
  | registered msg => exact if_neg hne
  | _ => rfl

end Orderly

end Dispatches

/-! ## §2  One minute -/

def Minute.second (m : Minute dm) (id : IdT) (o : Option ConnectTimeT) :
    Option ConnectTimeT :=
  let o := (m.messages.registrations id).head?.elim o
    fun _ => some (o.getD invalidSecond)
  (m.messages.connections id).getLast?.elim o fun second => o.map fun _ => second

theorem BasicUserData.reconnect_second (u : BasicUserData)
    {second : ConnectTimeT} (h : second < 60 ∨ second = invalidSecond) :
    (u.reconnect second).secondConnected.val = second := by
  rw [reconnect, dif_pos h]

theorem Minute.second_basic (m : Minute dm) (id : IdT)
    (b : Option BasicUserData) :
    (m.basic id b).map (·.secondConnected.val) =
      m.second id (b.map (·.secondConnected.val)) := by
  have hok : ∀ second, (m.messages.connections id).getLast? = some second →
      second < 60 ∨ second = invalidSecond := by
    intro second hsecond
    rw [← dispatchAll_connectionChanges] at hsecond
    exact dispatchAll_secondsOk m.messages id second hsecond
  unfold basic second
  cases hlast : (m.messages.connections id).getLast? with
  | none =>
      cases (m.messages.registrations id).head? <;>
        cases (m.messages.renames id).head? <;>
        cases b <;> rfl
  | some second =>
      have hset := fun u => BasicUserData.reconnect_second u (hok second hlast)
      cases (m.messages.registrations id).head? <;>
        cases (m.messages.renames id).head? <;>
        cases b <;> simp [hset]

namespace ServiceState

variable {st st' st'' : ServiceState dm n} {m : Minute dm}

def second (st : ServiceState dm n) (id : IdT) : Option ConnectTimeT :=
  (st.basic id).map (·.secondConnected.val)

/-- Behind a recalculation, with the rating in order and of a size an `int`
can count. -/
structure InOrder (st : ServiceState dm n) : Prop where
  rested : st.Rested
  integrity : st.userData.RatingIntegrity
  size : st.userData.rating.length < 2 ^ 31

theorem inOrder_init (q : JobQueue n) :
    ({ jobQueue := q } : ServiceState dm n).InOrder where
  rested := rested_init q
  integrity := CoreRatingData.ratingIntegrity_nil rfl fun _ => rfl
  size := Nat.two_pow_pos 31

theorem InOrder.sized (h : st.InOrder) (m : Minute dm) (q : JobQueue n) :
    (RatingCalculatorImpl.create st.userData st.iterationData
      (dispatchAll m.messages) q).Sized where
  integrity := h.integrity
  disjoint := h.rested.consistent.disjoint
  seconds := dispatchAll_secondsOk m.messages
  noPatches := rfl
  noFresh := rfl
  size := h.size

theorem getD_dealsWon (msgs : Dispatches dm) (id : IdT) :
    ((dispatchAll msgs).dealsWon[id]?).getD 0 = (msgs.deals id).sum := by
  rw [dispatchAll_dealsWon]
  split
  · next hnone => rw [hnone]; rfl
  · rfl

/-- **A minute that completes** leaves the rating in order, and adds up the
winnings of the users who are active then. -/
theorem InOrder.minute (h : st.InOrder) (hs : st.minute m = .ok st') :
    st'.InOrder ∧ (m.dropOldRating = false →
      ∀ id, (st'.userData.userState id).isActive →
        st'.userData.winnings id =
          st.userData.winnings id + (m.messages.deals id).sum) := by
  have hrested := (minute_of_ok h.rested hs).1
  obtain ⟨q, incomingData, -, -, hminute⟩ := minute_eq (m := m) h.rested
  rw [hminute] at hs
  obtain ⟨s', hs', hst'⟩ := bind_eq_ok.mp hs
  cases hst'
  obtain ⟨hranked, hsize⟩ :=
    RatingCalculatorImpl.recalculate_reranked (h.sized m q) hs'
  refine ⟨⟨hrested, hranked.integrity, hsize⟩, fun hdrop id hactive => ?_⟩
  rw [hdrop] at hranked
  refine (hranked.winnings id hactive).trans ?_
  show oldWinnings st.userData.rated id +
    ((dispatchAll m.messages).dealsWon[id]?).getD 0 = _
  rw [getD_dealsWon]
  rfl

theorem InOrder.minutes (ms : List (Minute dm)) (h : st.InOrder)
    (hs : exec ServiceState.minute st ms = .ok st') : st'.InOrder := by
  induction ms using List.reverseRecOn generalizing st' with
  | nil =>
      cases hs
      exact h
  | append_singleton ms m ih =>
      obtain ⟨st₁, hst₁, hm⟩ := exec_concat hs
      exact ((ih hst₁).minute hm).1

/-! ## §3  A run -/

def HoldsNone (st : ServiceState dm n) (msgs : Dispatches dm) : Prop :=
  ∀ msg ∈ msgs, st.basic msg.2.userId = none

/-- **The messages worked in**, in whatever minutes: who had a deal is active,
his winnings are the sum of his deals, and who is registered has the second of
his last connection change. -/
structure Worked (st : ServiceState dm n) (msgs : Dispatches dm)
    (st' : ServiceState dm n) : Prop where
  inOrder : st'.InOrder
  active : ∀ id, (st'.userData.userState id).isActive =
    ((st.userData.userState id).isActive || decide (msgs.deals id ≠ []))
  second : ∀ id, st'.second id =
    if msgs.registrations id = [] then st.second id
    else some ((msgs.connections id).getLast?.getD invalidSecond)
  winnings : ∀ id, st'.userData.winnings id =
    st.userData.winnings id + (msgs.deals id).sum

theorem Worked.nil (h : st.InOrder) : st.Worked [] st where
  inOrder := h
  active := fun _ => (Bool.or_false _).symm
  second := fun _ => rfl
  winnings := fun _ => (BitVec.add_zero _).symm

theorem HoldsNone.of_registered {msgs : Dispatches dm}
    (h : st.HoldsNone msgs) (hreg : msgs.registrations id ≠ []) :
    st.basic id = none := by
  by_contra hsome
  refine hreg (registrations_eq_nil fun msg hmsg heq => hsome ?_)
  rw [← heq]
  exact h msg hmsg

theorem HoldsNone.winnings_eq_zero {msgs : Dispatches dm}
    (h : st.HoldsNone msgs) (hreg : msgs.registrations id ≠ []) :
    st.userData.winnings id = 0 := by
  have hbasic : (st.userData.userState id).basic = none :=
    h.of_registered hreg
  rw [CoreRatingData.winnings, CoreRatingData.rated_eq_none]
  · rfl
  · cases hst : st.userData.userState id with
    | active u =>
        rw [hst] at hbasic
        cases hbasic
    | _ => rfl

theorem HoldsNone.prefix {msgs msgs' : Dispatches dm}
    (h : st.HoldsNone (msgs ++ msgs')) : st.HoldsNone msgs :=
  fun msg hmsg => h msg (List.mem_append_left _ hmsg)

theorem Worked.second_concat {done : Dispatches dm}
    (h : st.Worked done st') (hmsgs : Orderly (done ++ m.messages))
    (hnone : st.HoldsNone (done ++ m.messages)) (id : IdT) :
    m.second id (st'.second id) =
      if (done ++ m.messages).registrations id = [] then st.second id
      else some (((done ++ m.messages).connections id).getLast?.getD
        invalidSecond) := by
  have hfirst : done.registrations id = [] → done.connections id = [] :=
    fun hreg => connections_eq_nil (Orderly.not_mentioned hmsgs.prefix hreg)
  have hall : (done ++ m.messages).registrations id = [] →
      (done ++ m.messages).connections id = [] :=
    fun hreg => connections_eq_nil (hmsgs.not_mentioned hreg)
  have hnew : (done ++ m.messages).registrations id ≠ [] → st.basic id = none :=
    fun hreg => hnone.of_registered hreg
  rw [registrations_append, connections_append] at *
  rw [h.second, Minute.second, List.getLast?_append]
  cases hdone : done.registrations id with
  | nil =>
      rw [hdone, List.nil_append] at hall hnew
      rw [hfirst hdone, List.nil_append] at hall ⊢
      cases hreg : m.messages.registrations id with
      | nil => simp [hall hreg]
      | cons name names =>
          -- he is registered in this minute
          have hbasic := hnew (by rw [hreg]; exact List.cons_ne_nil _ _)
          have hsecond : st.second id = none := by
            rw [ServiceState.second, hbasic]
            rfl
          rw [hsecond]
          cases (m.messages.connections id).getLast? <;> rfl
  | cons name names =>
      cases (m.messages.registrations id).head? <;>
        cases (m.messages.connections id).getLast? <;> simp

theorem isSome_second (st : ServiceState dm n) (id : IdT) :
    (st.second id).isSome = (st.basic id).isSome :=
  Option.isSome_map

/-- **One more minute** works its messages in. -/
theorem Worked.minute {done : Dispatches dm} (h : st.Worked done st')
    (hmsgs : Orderly (done ++ m.messages))
    (hnone : st.HoldsNone (done ++ m.messages))
    (hdrop : m.dropOldRating = false) (hs : st'.minute m = .ok st'') :
    st.Worked (done ++ m.messages) st'' := by
  obtain ⟨hinOrder, hwinnings⟩ := h.inOrder.minute hs
  obtain ⟨-, hrecords⟩ := minute_of_ok h.inOrder.rested hs
  have hsecond : ∀ id, st''.second id = m.second id (st'.second id) := by
    intro id
    rw [ServiceState.second, ServiceState.basic, (hrecords id).1,
      m.second_basic]
    rfl
  -- whose deals these are is registered
  have hdealer : ∀ id, m.messages.deals id ≠ [] →
      (m.basic id (st'.userData.userState id).basic).isSome := by
    intro id hdeals
    have hthen := h.second_concat hmsgs hnone id
    rw [if_neg (hmsgs.registered_of_deals hdeals), ← hsecond] at hthen
    rw [← (hrecords id).1]
    show (st''.basic id).isSome
    rw [← isSome_second, hthen]
    rfl
  have hactive : ∀ id, (st''.userData.userState id).isActive =
      ((st.userData.userState id).isActive ||
        decide ((done ++ m.messages).deals id ≠ [])) := by
    intro id
    rw [(hrecords id).2, hdrop, h.active, deals_append]
    have hsome := hdealer id
    by_cases hdeals : m.messages.deals id = []
    · simp [hdeals]
    · simp [hdeals, hsome hdeals]
  refine ⟨hinOrder, hactive, fun id => ?_, fun id => ?_⟩
  · rw [hsecond]
    exact h.second_concat hmsgs hnone id
  · rw [deals_append, List.sum_append, ← BitVec.add_assoc, ← h.winnings]
    cases hid : (st''.userData.userState id).isActive with
    | true => exact hwinnings hdrop id hid
    | false =>
        -- no winnings, before and after
        rw [hactive, deals_append] at hid
        obtain ⟨hst, hdeals⟩ := Bool.or_eq_false_iff.mp hid
        have hnil := List.append_eq_nil_iff.mp (by simpa using hdeals)
        have hbefore : (st'.userData.userState id).isActive = false := by
          rw [h.active, hst, hnil.1]
          rfl
        have hafter : (st''.userData.userState id).isActive = false := by
          rw [hactive, deals_append, hst, hnil.1, hnil.2]
          rfl
        rw [CoreRatingData.winnings, CoreRatingData.rated_eq_none hafter,
          CoreRatingData.winnings, CoreRatingData.rated_eq_none hbefore, hnil.2]
        exact (BitVec.add_zero _).symm

def ratedThen (st : ServiceState dm n) (msgs : Dispatches dm) : Finset IdT :=
  st.userData.activeUsers.keys.toFinset ∪
    ((msgs.map fun msg => msg.2.userId).filter fun id =>
      !(msgs.deals id).isEmpty).toFinset

theorem mem_ratedThen {msgs : Dispatches dm} :
    id ∈ st.ratedThen msgs ↔
      (st.userData.userState id).isActive ∨ msgs.deals id ≠ [] := by
  have hmentioned : msgs.deals id ≠ [] →
      id ∈ msgs.map fun msg => msg.2.userId := by
    intro hdeals
    by_contra hnot
    refine hdeals (deals_eq_nil fun msg hmsg heq => hnot ?_)
    exact List.mem_map.mpr ⟨msg, hmsg, heq⟩
  rw [ratedThen, Finset.mem_union, List.mem_toFinset, List.mem_toFinset,
    ← AList.mem_keys, ← CoreRatingData.isActive_iff, List.mem_filter,
    Bool.not_eq_true', List.isEmpty_eq_false_iff]
  exact or_congr_right ⟨And.right, fun h => ⟨hmentioned h, h⟩⟩

theorem ratedThen_subset (st : ServiceState dm n) (msgs msgs' : Dispatches dm) :
    st.ratedThen msgs ⊆ st.ratedThen (msgs ++ msgs') := by
  intro id hid
  rw [mem_ratedThen, deals_append] at *
  exact hid.imp_right fun h => List.append_ne_nil_of_left_ne_nil h _

theorem Worked.length_rating {msgs : Dispatches dm} (h : st.Worked msgs st') :
    st'.userData.rating.length = (st.ratedThen msgs).card := by
  rw [RatingCalculatorImpl.length_rating h.inOrder.integrity,
    ← List.toFinset_card_of_nodup st'.userData.activeUsers.keys_nodup]
  congr 1
  ext id
  rw [List.mem_toFinset, ← AList.mem_keys, ← CoreRatingData.isActive_iff,
    h.active, mem_ratedThen, Bool.or_eq_true, decide_eq_true_eq]

/-- **One more minute completes**, if an `int` can count the users rated
then. -/
theorem Worked.completes {done : Dispatches dm} (h : st.Worked done st')
    (hmsgs : Orderly (done ++ m.messages))
    (hnone : st.HoldsNone (done ++ m.messages))
    (hdrop : m.dropOldRating = false)
    (hfew : (st.ratedThen (done ++ m.messages)).card < 2 ^ 31) :
    ∃ st'', st'.minute m = .ok st'' := by
  obtain ⟨q, incomingData, -, -, hminute⟩ :=
    minute_eq (m := m) h.inOrder.rested
  have hsized := h.inOrder.sized m q
  have hdealt : ∀ (id : IdT) (a : MonetaryT dm),
      (dispatchAll m.messages).dealsWon[id]? = some a →
        m.messages.deals id ≠ [] ∧ a = (m.messages.deals id).sum := by
    intro id a ha
    rw [dispatchAll_dealsWon] at ha
    split at ha
    · cases ha
    · next hdeals => exact ⟨hdeals, (Option.some_inj.mp ha).symm⟩
  have hsums := fun id => toInt_sum_append
    (by rw [← deals_append]; exact hmsgs.positive id)
    (by rw [← deals_append]; exact hmsgs.bounded id)
  have hpos : ∀ (id : IdT) (a : MonetaryT dm),
      (dispatchAll m.messages).dealsWon[id]? = some a → 0 < a.toInt := by
    intro id a ha
    obtain ⟨hdeals, rfl⟩ := hdealt id a ha
    rw [(hsums id).2]
    refine List.sum_pos _ (fun x hx => ?_) (by simpa using hdeals)
    obtain ⟨a, ha, rfl⟩ := List.mem_map.mp hx
    refine hmsgs.positive id a ?_
    rw [deals_append]
    exact List.mem_append_right _ ha
  have hsum : ∀ (id : IdT) (a : MonetaryT dm) r,
      (dispatchAll m.messages).dealsWon[id]? = some a →
      st'.userData.rated id = some r →
      (r.amountWon + a).toInt = r.amountWon.toInt + a.toInt := by
    intro id a r ha hr
    obtain ⟨hdeals, rfl⟩ := hdealt id a ha
    -- his winnings so far are the deals of this run
    have hbefore :=
      hnone.winnings_eq_zero (hmsgs.registered_of_deals hdeals)
    have hwon : r.amountWon = (done.deals id).sum := by
      have hthen := h.winnings id
      rw [hbefore, CoreRatingData.winnings, hr] at hthen
      exact hthen.trans (BitVec.zero_add _)
    rw [hwon]
    exact (hsums id).1
  have hup := RatingCalculatorImpl.nobodyMovesUp_batch hsized.integrity
    hsized.disjoint hsized.seconds false hpos hsum
  have hsize : ((RatingCalculatorImpl.create st'.userData st'.iterationData
      (dispatchAll m.messages) q).activeThen false).length < 2 ^ 31 := by
    refine lt_of_le_of_lt ?_ hfew
    rw [← List.toFinset_card_of_nodup RatingCalculatorImpl.nodup_activeThen]
    refine Finset.card_le_card fun id hid => ?_
    rw [List.mem_toFinset, RatingCalculatorImpl.mem_activeThen,
      RatingCalculatorImpl.isActive_batchState, Bool.or_eq_true] at hid
    rw [mem_ratedThen, deals_append]
    rcases hid with hid | hid
    · have hactive : (st'.userData.userState id).isActive = true := hid
      rw [h.active, Bool.or_eq_true, decide_eq_true_eq] at hactive
      exact hactive.imp_right fun hd => List.append_ne_nil_of_left_ne_nil hd _
    · have hsome : ((dispatchAll m.messages).dealsWon[id]?).isSome = true :=
        (Bool.and_eq_true_iff.mp hid).2
      rw [isSome_dealsWon, decide_eq_true_eq] at hsome
      exact Or.inr (List.append_ne_nil_of_right_ne_nil _ hsome)
  rw [hminute, hdrop]
  rcases RatingCalculatorImpl.recalculate_exact hsized false with
    ⟨-, -, s', hs', -⟩ | ⟨hnot, -⟩
  · rw [hs']
    exact ⟨_, rfl⟩
  · exact absurd ⟨hup, hsize⟩ hnot

end ServiceState

/-- The minutes a sequence of messages is cut into, each with a
`recalculate(false)` behind it. -/
def minutesOf (cut : List (Dispatches dm)) : List (Minute dm) :=
  cut.map fun messages => { messages }

theorem minutesOf_concat (cut : List (Dispatches dm)) (msgs : Dispatches dm) :
    minutesOf (cut ++ [msgs]) = minutesOf cut ++ [{ messages := msgs }] :=
  List.map_append

namespace ServiceState

theorem flatten_concat (cut : List (Dispatches dm)) (msgs : Dispatches dm) :
    (cut ++ [msgs]).flatten = cut.flatten ++ msgs := by
  rw [List.flatten_append, List.flatten_singleton]

/-- **A run that completes** has worked its messages in, wherever they are
cut. -/
theorem InOrder.worked (h : st.InOrder) (cut : List (Dispatches dm))
    (hmsgs : Orderly cut.flatten) (hnone : st.HoldsNone cut.flatten)
    (hs : exec ServiceState.minute st (minutesOf cut) = .ok st') :
    st.Worked cut.flatten st' := by
  induction cut using List.reverseRecOn generalizing st' with
  | nil =>
      cases hs
      exact .nil h
  | append_singleton cut msgs ih =>
      rw [flatten_concat] at hmsgs hnone ⊢
      rw [minutesOf_concat] at hs
      obtain ⟨st₁, hst₁, hm⟩ := exec_concat hs
      exact (ih hmsgs.prefix hnone.prefix hst₁).minute hmsgs hnone rfl hm

/-- **A run completes**, wherever its messages are cut, if an `int` can count
the users rated then. -/
theorem InOrder.completes (h : st.InOrder) (cut : List (Dispatches dm))
    (hmsgs : Orderly cut.flatten) (hnone : st.HoldsNone cut.flatten)
    (hfew : (st.ratedThen cut.flatten).card < 2 ^ 31) :
    ∃ st', exec ServiceState.minute st (minutesOf cut) = .ok st' := by
  induction cut using List.reverseRecOn with
  | nil => exact ⟨st, rfl⟩
  | append_singleton cut msgs ih =>
      rw [flatten_concat] at hmsgs hnone hfew
      have hbefore := lt_of_le_of_lt
        (Finset.card_le_card (ratedThen_subset st cut.flatten msgs)) hfew
      obtain ⟨st₁, hst₁⟩ := ih hmsgs.prefix hnone.prefix hbefore
      have hworked := h.worked cut hmsgs.prefix hnone.prefix hst₁
      obtain ⟨st₂, hst₂⟩ :=
        hworked.completes (m := { messages := msgs }) hmsgs hnone rfl hfew
      refine ⟨st₂, ?_⟩
      rw [minutesOf_concat, exec_append, hst₁]
      exact (exec_singleton _ _).trans hst₂

/-! ## §4  Two runs -/

def ratingAmounts (st : ServiceState dm n) :
    Outcome (List (MonetaryT dm)) := do
  let users ← st.userData.rating.mapM st.userData.load
  .ok (users.map FullUserData.amountWon)

/-- **The same books**: the same users in each of the tables and in each of
the buckets, with the same winnings and seconds, and the same winnings along
the rating. Users who are level may stand the other way round. -/
structure SameBooks (st st' : ServiceState dm n) : Prop where
  active : ∀ id, id ∈ st.userData.activeUsers ↔ id ∈ st'.userData.activeUsers
  silent : ∀ id, id ∈ st.userData.silentUsers ↔ id ∈ st'.userData.silentUsers
  amountWon : ∀ id, (st.userData.activeUsers.lookup id).map (·.amountWon) =
    (st'.userData.activeUsers.lookup id).map (·.amountWon)
  secondConnected : ∀ id, (st.basic id).map (·.secondConnected) =
    (st'.basic id).map (·.secondConnected)
  buckets : ∀ second,
    (st.iterationData.usersOnline second).image UserRef.owner =
      (st'.iterationData.usersOnline second).image UserRef.owner
  rating : ∃ amounts, st.ratingAmounts = .ok amounts ∧
    st'.ratingAmounts = .ok amounts

/-- **What the messages say**: a user's winnings are the sum of all his deals,
his second is the one of his last connection change. -/
structure Books (msgs : Dispatches dm) (st : ServiceState dm n) : Prop where
  amountWon : ∀ id, msgs.deals id ≠ [] →
    ∃ u, st.userData.activeUsers.lookup id = some u ∧
      u.amountWon.toInt = ((msgs.deals id).map BitVec.toInt).sum
  secondConnected : ∀ id second, (msgs.connections id).getLast? = some second →
    ∃ b, st.basic id = some b ∧ b.secondConnected.val = second

section Books

variable {st st₁ st₂ : ServiceState dm n} {msgs : Dispatches dm}

theorem lookup_amountWon (st : ServiceState dm n) (id : IdT) :
    (st.userData.activeUsers.lookup id).map (·.amountWon) =
      if (st.userData.userState id).isActive then
        some (st.userData.winnings id)
      else none := by
  cases hu : st.userData.activeUsers.lookup id with
  | some u =>
      rw [CoreRatingData.userState_active hu,
        CoreRatingData.winnings_of_active hu]
      rfl
  | none =>
      rw [if_neg]
      · rfl
      · rw [CoreRatingData.isActive_iff, ← AList.lookup_isSome, hu]
        exact Bool.false_ne_true

theorem Worked.books (h : st.Worked msgs st₁) (hmsgs : Orderly msgs)
    (hnone : st.HoldsNone msgs) : st₁.Books msgs where
  amountWon := by
    intro id hdeals
    have hactive : (st₁.userData.userState id).isActive = true := by
      rw [h.active, Bool.or_eq_true, decide_eq_true_eq]
      exact Or.inr hdeals
    have hreg : msgs.registrations id ≠ [] :=
      Orderly.registered_of_deals (show Orderly ([] ++ msgs) from hmsgs) hdeals
    have hamount := lookup_amountWon st₁ id
    rw [if_pos hactive, h.winnings, hnone.winnings_eq_zero hreg] at hamount
    obtain ⟨u, hu, hwon⟩ := Option.map_eq_some_iff.mp hamount
    refine ⟨u, hu, ?_⟩
    rw [hwon, ← toInt_sum (hmsgs.positive id) (hmsgs.bounded id)]
    exact congrArg BitVec.toInt (BitVec.zero_add _)
  secondConnected := by
    intro id second hlast
    have hreg : msgs.registrations id ≠ [] := by
      intro hreg
      rw [connections_eq_nil (hmsgs.not_mentioned hreg)] at hlast
      cases hlast
    have hsecond := h.second id
    rw [if_neg hreg, hlast, Option.getD_some] at hsecond
    exact Option.map_eq_some_iff.mp hsecond

theorem mem_image_bucket (h : st.InOrder) {second : Fin 60} :
    id ∈ (st.iterationData.usersOnline second).image UserRef.owner ↔
      (st.userData.userState id).isActive ∧
        (st.second id).map UInt8.toNat = some second.val := by
  rw [Finset.mem_image]
  constructor
  · rintro ⟨p, hp, rfl⟩
    obtain ⟨u, hu, -, hsecond⟩ :=
      (h.rested.consistent.buckets second p).mp hp
    rw [ServiceState.second, ServiceState.basic,
      CoreRatingData.userState_active hu]
    exact ⟨rfl, congrArg some hsecond⟩
  · rintro ⟨hactive, hsecond⟩
    rw [CoreRatingData.isActive_iff, ← AList.lookup_isSome] at hactive
    obtain ⟨u, hu⟩ := Option.isSome_iff_exists.mp hactive
    rw [ServiceState.second, ServiceState.basic,
      CoreRatingData.userState_active hu] at hsecond
    refine ⟨⟨id, u.serial⟩, ?_, rfl⟩
    exact (h.rested.consistent.buckets second _).mpr
      ⟨u, hu, rfl, Option.some_inj.mp hsecond⟩

theorem InOrder.ratingAmounts (h : st.InOrder) :
    st.ratingAmounts =
      .ok (st.userData.rating.map (st.userData.winnings ·.owner)) := by
  obtain ⟨users, husers, hamounts⟩ := CoreRatingData.mapM_load
    st.userData.rating fun p hp => (h.integrity.listed p).mp hp
  rw [ServiceState.ratingAmounts, husers, ok_bind, hamounts]

theorem InOrder.descending (h : st.InOrder) :
    (st.userData.rating.map (st.userData.winnings ·.owner)).Pairwise
      fun a b => b.toInt ≤ a.toInt :=
  List.pairwise_map.mpr h.integrity.sorted

/-- The winnings along the rating are those of its users in descending order,
so two ratings of the same users with the same winnings agree on them. -/
theorem winnings_along_eq (h₁ : st₁.InOrder) (h₂ : st₂.InOrder)
    (hactive : ∀ id, (st₁.userData.userState id).isActive =
      (st₂.userData.userState id).isActive)
    (hwinnings : ∀ id, st₁.userData.winnings id = st₂.userData.winnings id) :
    st₁.userData.rating.map (st₁.userData.winnings ·.owner) =
      st₂.userData.rating.map (st₂.userData.winnings ·.owner) := by
  have howners : (st₁.userData.rating.map UserRef.owner).Perm
      (st₂.userData.rating.map UserRef.owner) := by
    refine (List.perm_ext_iff_of_nodup h₁.integrity.nodup_owners
      h₂.integrity.nodup_owners).mpr fun id => ?_
    rw [h₁.integrity.mem_owners, h₂.integrity.mem_owners, hactive]
  have hperm := howners.map st₁.userData.winnings
  rw [List.map_map, List.map_map] at hperm
  have hsame : st₂.userData.rating.map (st₂.userData.winnings ·.owner) =
      st₂.userData.rating.map (st₁.userData.winnings ∘ UserRef.owner) :=
    List.map_congr_left fun p _ => (hwinnings p.owner).symm
  have hsorted := h₁.descending
  have hsorted' := h₂.descending
  rw [hsame] at hsorted' ⊢
  apply List.Perm.eq_of_pairwise _ hsorted hsorted' hperm
  intro a b _ _ hle hge
  exact BitVec.toInt_inj.mp (le_antisymm hge hle)

theorem Worked.sameBooks (h₁ : st.Worked msgs st₁) (h₂ : st.Worked msgs st₂) :
    st₁.SameBooks st₂ := by
  have hactive : ∀ id, (st₁.userData.userState id).isActive =
      (st₂.userData.userState id).isActive :=
    fun id => (h₁.active id).trans (h₂.active id).symm
  have hsecond : ∀ id, st₁.second id = st₂.second id :=
    fun id => (h₁.second id).trans (h₂.second id).symm
  have hwinnings : ∀ id, st₁.userData.winnings id = st₂.userData.winnings id :=
    fun id => (h₁.winnings id).trans (h₂.winnings id).symm
  refine ⟨fun id => ?_, fun id => ?_, fun id => ?_, fun id => ?_,
    fun second => ?_, ⟨_, h₁.inOrder.ratingAmounts, ?_⟩⟩
  · rw [← CoreRatingData.isActive_iff, ← CoreRatingData.isActive_iff, hactive]
  · rw [← CoreRatingData.isSilent_iff h₁.inOrder.rested.consistent.disjoint,
      ← CoreRatingData.isSilent_iff h₂.inOrder.rested.consistent.disjoint,
      UserState.isSilent_eq, UserState.isSilent_eq, hactive]
    show ((st₁.basic id).isSome && _) = true ↔ ((st₂.basic id).isSome && _) = true
    rw [← isSome_second, ← isSome_second, hsecond]
  · rw [lookup_amountWon, lookup_amountWon, hactive, hwinnings]
  · refine Option.map_injective Subtype.val_injective ?_
    rw [Option.map_map, Option.map_map]
    exact hsecond id
  · ext id
    rw [mem_image_bucket h₁.inOrder, mem_image_bucket h₂.inOrder, hactive,
      hsecond]
  · rw [h₂.inOrder.ratingAmounts,
      winnings_along_eq h₁.inOrder h₂.inOrder hactive hwinnings]

end Books

end ServiceState

/-- **The cut does not matter.** From any state a run of minutes leads to,
orderly messages about users it does not have, cut into minutes in any two
ways, leave the same books, and in them what the messages say, if an `int` can
count the users rated then; otherwise both runs fail. -/
theorem cut_independent (q : JobQueue n) (start : List (Minute dm))
    {st : ServiceState dm n}
    (hst : exec ServiceState.minute { jobQueue := q } start = .ok st)
    {msgs : Dispatches dm} (hmsgs : Orderly msgs) (hnone : st.HoldsNone msgs)
    {cut cut' : List (Dispatches dm)} (hcut : cut.flatten = msgs)
    (hcut' : cut'.flatten = msgs) :
    ((st.ratedThen msgs).card < 2 ^ 31 →
      ∃ st₁ st₂, exec ServiceState.minute st (minutesOf cut) = .ok st₁ ∧
        exec ServiceState.minute st (minutesOf cut') = .ok st₂ ∧
        st₁.SameBooks st₂ ∧ st₁.Books msgs) ∧
    (2 ^ 31 ≤ (st.ratedThen msgs).card →
      (∃ e, exec ServiceState.minute st (minutesOf cut) = .error e) ∧
        ∃ e, exec ServiceState.minute st (minutesOf cut') = .error e) := by
  have hstart := (ServiceState.inOrder_init q).minutes start hst
  have hworked : ∀ c : List (Dispatches dm), c.flatten = msgs → ∀ st',
      exec ServiceState.minute st (minutesOf c) = .ok st' →
      st.Worked msgs st' := by
    rintro c rfl st' hs
    exact hstart.worked c hmsgs hnone hs
  constructor
  · intro hfew
    have hcompletes : ∀ c : List (Dispatches dm), c.flatten = msgs →
        ∃ st', exec ServiceState.minute st (minutesOf c) = .ok st' := by
      rintro c rfl
      exact hstart.completes c hmsgs hnone hfew
    obtain ⟨st₁, hst₁⟩ := hcompletes cut hcut
    obtain ⟨st₂, hst₂⟩ := hcompletes cut' hcut'
    have h₁ := hworked cut hcut st₁ hst₁
    have h₂ := hworked cut' hcut' st₂ hst₂
    exact ⟨st₁, st₂, hst₁, hst₂, h₁.sameBooks h₂, h₁.books hmsgs hnone⟩
  · intro hmany
    have hfails : ∀ c : List (Dispatches dm), c.flatten = msgs →
        ∃ e, exec ServiceState.minute st (minutesOf c) = .error e := by
      intro c hc
      cases hs : exec ServiceState.minute st (minutesOf c) with
      | error e => exact ⟨e, rfl⟩
      | ok st' =>
          -- the rating would be too long for an `int`
          have h := hworked c hc st' hs
          have hsize := h.inOrder.size
          rw [h.length_rating] at hsize
          exact absurd hsize (not_lt.mpr hmany)
    exact ⟨hfails cut hcut, hfails cut' hcut'⟩

def registeredWon : Dispatches .lp64 :=
  [(0, .registered ⟨⟨1⟩, [97]⟩), (7, .connected ⟨1⟩), (9, .dealWon ⟨⟨1⟩, 10⟩)]

def wonAgain : Dispatches .lp64 := [(30, .dealWon ⟨⟨1⟩, 20⟩)]

theorem userId_registeredWon :
    ∀ msg ∈ registeredWon ++ wonAgain, msg.2.userId = 1 := by
  intro msg hmsg
  simp only [registeredWon, wonAgain, List.cons_append, List.nil_append,
    List.mem_cons, List.not_mem_nil, or_false] at hmsg
  rcases hmsg with rfl | rfl | rfl | rfl <;> rfl

theorem registeredWon_orderly : Orderly (registeredWon ++ wonAgain) := by
  have hdeals : ∀ id, id ≠ 1 → deals id (registeredWon ++ wonAgain) = [] := by
    intro id hid
    exact deals_eq_nil fun msg hmsg heq =>
      hid (heq.symm.trans (userId_registeredWon msg hmsg))
  refine ⟨?_, fun id a ha => ?_, fun id => ?_⟩
  · intro pre msg post hsplit hself
    rw [userId_registeredWon msg (by rw [hsplit]; simp)] at hself ⊢
    cases pre with
    | nil =>
        cases (List.cons.inj hsplit).1
        cases hself
    | cons first pre =>
        cases (List.cons.inj hsplit).1
        exact List.cons_ne_nil _ _
  · by_cases hid : id = 1
    · subst hid
      rcases List.mem_cons.mp ha with rfl | ha
      · decide
      · rw [List.mem_singleton.mp ha]
        decide
    · rw [hdeals id hid] at ha
      cases ha
  · by_cases hid : id = 1
    · subst hid
      decide
    · rw [hdeals id hid]
      decide

/-- It does not matter whether both wins fall in one minute. -/
theorem registeredWon_cut :
    ∃ st₁ st₂,
      exec ServiceState.minute { jobQueue := oneWorker }
          (minutesOf [registeredWon, wonAgain]) = .ok st₁ ∧
        exec ServiceState.minute { jobQueue := oneWorker }
          (minutesOf [registeredWon ++ wonAgain]) = .ok st₂ ∧
        st₁.SameBooks st₂ ∧ st₁.Books (registeredWon ++ wonAgain) :=
  (cut_independent oneWorker [] rfl registeredWon_orderly (fun _ _ => rfl)
    (by simp) (by simp)).1 (by decide)

end RatingService
