import RatingService.Framework.Runs
import RatingService.Service.UserRecords
import Mathlib.Algebra.BigOperators.Fin
import Mathlib.Algebra.Order.BigOperators.Group.List
import Mathlib.Data.Finset.Union
import Mathlib.Data.Fintype.Fin

/-!
# User tables and announcement buckets

The tables of `service/core_data.h` and the buckets of `usersOnline` through
recalculations of any batches, and what `RatingAnnouncer::announce` of
`service/rating_announcer.cpp` makes of the buckets in a minute.

- §1: consistent tables and buckets.
- §2: what keeps them so.
- §3: a recalculation.
- §4: the announcer's minute.
- §5: any sequence of recalculations.
-/

namespace RatingService

open Runs

variable {dm : DataModel} {n : ℕ}

/-! ## §1  Tables and buckets -/

/-- The pointer leads to an active user who is connected at that second. -/
def CoreRatingData.ConnectedAt (d : CoreRatingData dm) (second : Fin 60)
    (p : UserRef) : Prop :=
  ∃ u, d.activeUsers.lookup p.owner = some u ∧ u.serial = p.serial ∧
    u.secondConnected.val.toNat = second

/-- **Consistency**: nobody is in both tables, an active user's record has his
id, and a bucket holds the pointers to the active users connected at its
second, and no others. -/
structure Consistent (d : CoreRatingData dm) (it : IterationData) : Prop where
  disjoint : d.Disjoint
  keyed : ∀ id u, d.activeUsers.lookup id = some u → u.id = id
  buckets : ∀ second p, p ∈ it.usersOnline second ↔ d.ConnectedAt second p

theorem consistent_empty : Consistent ({} : CoreRatingData dm) {} where
  disjoint := fun _ _ _ => rfl
  keyed := fun id u h => by cases (AList.lookup_empty id).symm.trans h
  buckets := by
    intro second p
    constructor
    · intro hp
      cases hp
    · rintro ⟨u, hu, -⟩
      cases (AList.lookup_empty p.owner).symm.trans hu

theorem UserRef.eq_iff {p : UserRef} {id : IdT} {serial : ℕ} :
    p = ⟨id, serial⟩ ↔ p.owner = id ∧ serial = p.serial := by
  cases p
  simp [eq_comm]

namespace IterationData

variable {it : IterationData} {second : StoredSecond} {user p : UserRef}
  {s : Fin 60}

theorem StoredSecond.bucket_eq_iff {h : second.val < 60} :
    s = second.bucket h ↔ second.val.toNat = s := by
  rw [Fin.ext_iff, StoredSecond.bucket]
  exact eq_comm

theorem StoredSecond.toNat_ne (h : ¬ second.val < 60) :
    second.val.toNat ≠ s := by
  intro heq
  exact h (UInt8.lt_iff_toNat_lt.mpr (heq ▸ s.isLt))

theorem mem_leave : p ∈ (it.leave second user).usersOnline s ↔
    p ∈ it.usersOnline s ∧ ¬ (p = user ∧ second.val.toNat = s) := by
  unfold leave
  split
  · next h =>
    by_cases hs : s = second.bucket h
    · subst hs
      simp [StoredSecond.bucket, and_comm]
    · have hne : ¬ second.val.toNat = s :=
        fun heq => hs (StoredSecond.bucket_eq_iff.mpr heq)
      simp [Function.update_of_ne hs, hne]
  · next h => simp [StoredSecond.toNat_ne h]

theorem mem_enter : p ∈ (it.enter second user).usersOnline s ↔
    p ∈ it.usersOnline s ∨ p = user ∧ second.val.toNat = s := by
  unfold enter
  split
  · next h =>
    by_cases hs : s = second.bucket h
    · subst hs
      simp [StoredSecond.bucket, or_comm]
    · have hne : ¬ second.val.toNat = s :=
        fun heq => hs (StoredSecond.bucket_eq_iff.mpr heq)
      simp [Function.update_of_ne hs, hne]
  · next h => simp [StoredSecond.toNat_ne h]

end IterationData

/-! ## §2  What keeps them consistent -/

section Steps

variable {d : CoreRatingData dm} {it : IterationData} {id : IdT}

theorem connectedAt_insert {v : FullUserData dm} {second : Fin 60}
    {p : UserRef} :
    ({ d with activeUsers := d.activeUsers.insert id v } :
        CoreRatingData dm).ConnectedAt second p ↔
      p = ⟨id, v.serial⟩ ∧ v.secondConnected.val.toNat = second ∨
        p.owner ≠ id ∧ d.ConnectedAt second p := by
  unfold CoreRatingData.ConnectedAt
  rw [UserRef.eq_iff]
  by_cases hp : p.owner = id
  · subst hp
    simp
  · simp [hp]

theorem Consistent.insert_active (h : Consistent d it)
    {u v : FullUserData dm} (hu : d.activeUsers.lookup id = some u)
    (hid : v.id = u.id) (hserial : v.serial = u.serial) :
    Consistent { d with activeUsers := d.activeUsers.insert id v }
      ((it.leave u.secondConnected (u.ref id)).enter v.secondConnected
        (u.ref id)) where
  disjoint := RatingCalculatorImpl.disjoint_insert_active hu h.disjoint
  keyed := by
    intro k w hw
    by_cases hk : k = id
    · rw [hk, AList.lookup_insert] at hw
      cases hw
      rw [hid, hk]
      exact h.keyed id u hu
    · exact h.keyed k w ((AList.lookup_insert_ne hk).symm.trans hw)
  buckets := by
    intro second p
    rw [IterationData.mem_enter, IterationData.mem_leave, connectedAt_insert,
      h.buckets, FullUserData.ref, hserial, or_comm, UserRef.eq_iff]
    refine or_congr_right ?_
    by_cases hp : p.owner = id
    · -- the only pointer to him is in the bucket of his second
      refine iff_of_false ?_ fun hnot => hnot.1 hp
      rintro ⟨⟨w, hw, hws, hwsec⟩, hnot⟩
      rw [hp, hu] at hw
      cases hw
      exact hnot ⟨⟨hp, hws⟩, hwsec⟩
    · simp [hp]

theorem Consistent.rename_active (h : Consistent d it) {u : FullUserData dm}
    (hu : d.activeUsers.lookup id = some u) (name : BufferT) :
    Consistent
      { d with activeUsers := d.activeUsers.insert id { u with name } } it := by
  have hins := h.insert_active hu (v := { u with name }) rfl rfl
  refine ⟨hins.disjoint, hins.keyed, fun second p => ?_⟩
  rw [← hins.buckets, IterationData.mem_enter, IterationData.mem_leave]
  by_cases hp : p = u.ref id ∧ u.secondConnected.val.toNat = second
  · obtain ⟨rfl, hsecond⟩ := hp
    have hmem := (h.buckets second (u.ref id)).mpr ⟨u, hu, rfl, hsecond⟩
    simp [hmem, hsecond]
  · simp [hp]

theorem Consistent.silent {silent : SilentUsersMap} (h : Consistent d it)
    (hdisj : ({ d with silentUsers := silent } : CoreRatingData dm).Disjoint) :
    Consistent { d with silentUsers := silent } it :=
  ⟨hdisj, h.keyed, h.buckets⟩

/-- The merge has no part in the tables' consistency. -/
theorem Consistent.sameRecords {d' : CoreRatingData dm} (h : Consistent d it)
    (hsame : d.SameRecords d') : Consistent d' it where
  disjoint := hsame.disjoint h.disjoint
  keyed := by
    intro id u' hu'
    obtain ⟨u, hu, heq⟩ := hsame.active hu'
    rw [CoreRatingData.id_of_unranked heq]
    exact h.keyed id u hu
  buckets := by
    have hconn : ∀ {d₁ d₂ : CoreRatingData dm}, d₁.SameRecords d₂ →
        ∀ second p, d₂.ConnectedAt second p → d₁.ConnectedAt second p := by
      rintro d₁ d₂ hsame second p ⟨u', hu', hserial, hsecond⟩
      obtain ⟨u, hu, heq⟩ := hsame.active hu'
      refine ⟨u, hu, ?_, ?_⟩
      · rw [← CoreRatingData.serial_of_unranked heq]
        exact hserial
      · rw [← CoreRatingData.toBasicUserData_of_unranked heq]
        exact hsecond
    intro second p
    rw [h.buckets]
    exact ⟨hconn hsame.symm second p, hconn hsame second p⟩

theorem Consistent.activate (h : Consistent d it) {u : BasicUserData}
    (ha : d.activeUsers.lookup id = none) (amountWon : MonetaryT dm)
    (serial nextSerial : ℕ) :
    Consistent
      { d with
        silentUsers := d.silentUsers.erase id
        activeUsers := d.activeUsers.emplace id
          { u with id := id, amountWon, serial }
        nextSerial }
      (it.enter u.secondConnected ⟨id, serial⟩) := by
  have hins : d.activeUsers.emplace id { u with id := id, amountWon, serial } =
      d.activeUsers.insert id { u with id := id, amountWon, serial } := by
    rw [UnorderedMap.emplace, ha]
    rfl
  rw [hins]
  refine ⟨?_, ?_, ?_⟩
  · intro k w hw
    by_cases hk : k = id
    · rw [hk]
      exact AList.lookup_erase _ _
    · exact (AList.lookup_erase_ne hk).trans
        (h.disjoint k w ((AList.lookup_insert_ne hk).symm.trans hw))
  · intro k w hw
    by_cases hk : k = id
    · rw [hk, AList.lookup_insert] at hw
      cases hw
      exact hk.symm
    · exact h.keyed k w ((AList.lookup_insert_ne hk).symm.trans hw)
  · intro second p
    have hconn := @connectedAt_insert dm d id
      { u with id := id, amountWon, serial } second p
    rw [IterationData.mem_enter, h.buckets]
    refine Iff.trans ?_ hconn.symm
    rw [or_comm]
    refine or_congr_right (iff_and_self.mpr ?_)
    -- nothing led to him before
    rintro ⟨w, hw, -⟩ rfl
    exact Option.some_ne_none w (hw.symm.trans ha)

end Steps

/-! ## §3  A recalculation -/

namespace RatingCalculatorImpl

variable {s s' : RatingCalculatorImpl dm n}

def IsConsistent (s : RatingCalculatorImpl dm n) : Prop :=
  Consistent s.userData s.iterationData

theorem IsConsistent.dropRating (s : RatingCalculatorImpl dm n) :
    s.dropRating.IsConsistent where
  disjoint := dropRating_disjoint s
  keyed := consistent_empty.keyed
  buckets := consistent_empty.buckets

theorem IsConsistent.processRegistration (h : s.IsConsistent)
    (e : IdT × BufferT) : (s.processRegistration e).IsConsistent := by
  have hdisj := processRegistration_disjoint e h.disjoint
  unfold RatingCalculatorImpl.processRegistration at hdisj ⊢
  by_cases hex : s.userExists e.1 = true
  · rw [if_pos hex]
    exact h
  · rw [if_neg hex] at hdisj ⊢
    exact Consistent.silent h hdisj

theorem IsConsistent.processRename (h : s.IsConsistent)
    (e : IdT × BufferT) : (s.processRename e).IsConsistent := by
  have hdisj := processRename_disjoint e h.disjoint
  unfold RatingCalculatorImpl.processRename at hdisj ⊢
  cases ha : s.userData.activeUsers.lookup e.1 with
  | some u => exact Consistent.rename_active h ha e.2
  | none =>
      rw [ha] at hdisj
      cases hs : s.userData.silentUsers.lookup e.1 with
      | some u =>
          rw [hs] at hdisj
          exact Consistent.silent h hdisj
      | none => exact h

theorem IsConsistent.processConnectionChange {e : IdT × ConnectTimeT}
    (h : s.IsConsistent) (hs : s.processConnectionChange e = .ok s') :
    s'.IsConsistent := by
  unfold RatingCalculatorImpl.processConnectionChange at hs
  split at hs
  · cases ha : s.userData.activeUsers.lookup e.1 with
    | some u =>
        rw [ha] at hs
        cases hs
        exact Consistent.insert_active h ha rfl rfl
    | none =>
        rw [ha] at hs
        cases hsi : s.userData.silentUsers.lookup e.1 with
        | some u =>
            rw [hsi] at hs
            cases hs
            exact Consistent.silent h (disjoint_insert_silent ha h.disjoint)
        | none =>
            rw [hsi] at hs
            cases hs
            exact h
  · cases hs

theorem IsConsistent.processDeal {e : IdT × MonetaryT dm}
    (h : s.IsConsistent) (hs : s.processDeal e = .ok s') :
    s'.IsConsistent := by
  unfold RatingCalculatorImpl.processDeal at hs
  cases ha : s.userData.activeUsers.lookup e.1 with
  | some u =>
      rw [ha] at hs
      obtain ⟨patches, rfl⟩ := processActiveDeal_of_ok hs
      exact h
  | none =>
      rw [ha] at hs
      cases hsi : s.userData.silentUsers.lookup e.1 with
      | some u =>
          rw [hsi] at hs
          obtain ⟨patches, fresh, rfl⟩ := processSilentDeal_of_ok hs
          exact Consistent.activate h ha _ _ _
      | none =>
          rw [hsi] at hs
          cases hs
          exact h

/-- **A recalculation** that completes keeps tables and buckets consistent. -/
theorem IsConsistent.recalculate {dropOldRating : Bool} (h : s.IsConsistent)
    (hs : s.recalculate dropOldRating = .ok s') : s'.IsConsistent := by
  obtain ⟨s₂, hs₂, hmerge⟩ := bind_eq_ok.mp hs
  obtain ⟨s₁, hs₁, hdeals⟩ := bind_eq_ok.mp hs₂
  have h₀ : (if dropOldRating then s.dropRating else s).IsConsistent := by
    cases dropOldRating with
    | true => exact IsConsistent.dropRating s
    | false => exact h
  have hregistered := KeyedFold.foldl_invariant IsConsistent
    (fun s e h => h.processRegistration e)
    (if dropOldRating then s.dropRating else
      s).incomingBuffer.usersRegistered.toList _ h₀
  have hrenamed := KeyedFold.foldl_invariant IsConsistent
    (fun s e h => h.processRename e)
    (if dropOldRating then s.dropRating else
      s).processRegistrations.incomingBuffer.usersRenamed.toList
    (if dropOldRating then s.dropRating else s).processRegistrations hregistered
  obtain ⟨s₁', hs₁', hclear⟩ := bind_eq_ok.mp hs₁
  have hconnected := KeyedFold.foldlM_invariant IsConsistent
    (fun s e s' h hs => h.processConnectionChange hs) _
    (if dropOldRating then s.dropRating else
      s).processRegistrations.processRenames _ hrenamed hs₁'
  cases hclear
  obtain ⟨s₂', hs₂', hclear⟩ := bind_eq_ok.mp hdeals
  have hdealt := KeyedFold.foldlM_invariant IsConsistent
    (fun s e s' h hs => h.processDeal hs) _
    { s₁' with incomingBuffer :=
      { s₁'.incomingBuffer with connectionChanges := ∅ } } _ hconnected hs₂'
  cases hclear
  obtain ⟨hsame, hit, -⟩ := merge_of_ok hmerge
  rw [IsConsistent, hit]
  exact Consistent.sameRecords hdealt hsame

end RatingCalculatorImpl

/-! ## §4  The announcer's minute -/

namespace JobQueue

def announced (q : JobQueue n) : Multiset UserRef :=
  ∑ i, ((q.queues i).userDataQueue : Multiset UserRef)

theorem announced_enqueueUserData (q : JobQueue n) (p : UserRef) :
    (q.enqueueUserData p).announced = q.announced + {p} := by
  have hother : ∀ i ∈ Finset.univ.erase q.userDataIndex,
      (((q.enqueueUserData p).queues i).userDataQueue : Multiset UserRef) =
        (q.queues i).userDataQueue := by
    intro i hi
    rw [userDataQueue_enqueueUserData, if_neg (Finset.ne_of_mem_erase hi)]
  rw [announced, announced,
    ← Finset.add_sum_erase _ _ (Finset.mem_univ q.userDataIndex),
    ← Finset.add_sum_erase _ _ (Finset.mem_univ q.userDataIndex),
    Finset.sum_congr rfl hother, userDataQueue_enqueueUserData, if_pos rfl,
    ← Multiset.coe_add, Multiset.coe_singleton]
  exact add_right_comm _ _ _

/-- `RatingAnnouncer::announce`; the list is the set in the order in which the
loop meets its elements. -/
def announce (q : JobQueue n) (userBundle : List UserRef) : JobQueue n :=
  userBundle.foldl enqueueUserData q

theorem announced_announce (userBundle : List UserRef) (q : JobQueue n) :
    (q.announce userBundle).announced = q.announced + userBundle := by
  induction userBundle generalizing q with
  | nil => exact (add_zero _).symm
  | cons p userBundle ih =>
      rw [announce, List.foldl_cons]
      refine (ih _).trans ?_
      rw [announced_enqueueUserData, add_assoc, Multiset.singleton_add,
        Multiset.cons_coe]

/-- The loop over `chronoSetIndex` from 0 to 59. -/
def announceMinute (q : JobQueue n) (order : Fin 60 → List UserRef) :
    JobQueue n :=
  (List.finRange 60).foldl (fun q second => q.announce (order second)) q

theorem announced_foldl (order : Fin 60 → List UserRef)
    (seconds : List (Fin 60)) (q : JobQueue n) :
    (seconds.foldl (fun q second => q.announce (order second)) q).announced =
      q.announced +
        (seconds.map fun second => (order second : Multiset UserRef)).sum := by
  induction seconds generalizing q with
  | nil => exact (add_zero _).symm
  | cons second seconds ih =>
      rw [List.foldl_cons, ih, announced_announce, List.map_cons,
        List.sum_cons, add_assoc]

end JobQueue

def IterationData.Enumerates (it : IterationData)
    (order : Fin 60 → List UserRef) : Prop :=
  ∀ second, (order second).Nodup ∧
    (order second).toFinset = it.usersOnline second

instance (it : IterationData) (order : Fin 60 → List UserRef) :
    Decidable (it.Enumerates order) :=
  inferInstanceAs (Decidable (∀ _, _ ∧ _))

/-- The pointer leads to an active user who is connected. -/
def CoreRatingData.Connected (d : CoreRatingData dm) (p : UserRef) : Prop :=
  ∃ u, d.activeUsers.lookup p.owner = some u ∧ u.serial = p.serial ∧
    u.secondConnected.val < 60

theorem CoreRatingData.connected_iff {d : CoreRatingData dm} {p : UserRef} :
    d.Connected p ↔ ∃ second, d.ConnectedAt second p := by
  constructor
  · rintro ⟨u, hu, hserial, hlt⟩
    exact ⟨⟨u.secondConnected.val.toNat, hlt⟩, u, hu, hserial, rfl⟩
  · rintro ⟨second, u, hu, hserial, hsecond⟩
    refine ⟨u, hu, hserial, UInt8.lt_iff_toNat_lt.mpr ?_⟩
    rw [hsecond]
    exact second.isLt

/-- **A minute of the announcer** enqueues every connected active user exactly
once, and nobody else. -/
theorem Consistent.announceMinute {d : CoreRatingData dm} {it : IterationData}
    (h : Consistent d it) {order : Fin 60 → List UserRef}
    (horder : it.Enumerates order) (q : JobQueue n) :
    ∃ fresh : Finset UserRef,
      (q.announceMinute order).announced = q.announced + fresh.val ∧
        ∀ p, p ∈ fresh ↔ d.Connected p := by
  -- nobody is in two buckets
  have hdisj : ((Finset.univ : Finset (Fin 60)) : Set
      (Fin 60)).PairwiseDisjoint it.usersOnline := by
    intro second _ second' _ hne
    refine Finset.disjoint_left.mpr fun p hp hp' => hne ?_
    obtain ⟨u, hu, -, hsecond⟩ := (h.buckets _ _).mp hp
    obtain ⟨u', hu', -, hsecond'⟩ := (h.buckets _ _).mp hp'
    rw [hu] at hu'
    cases hu'
    exact Fin.ext (hsecond.symm.trans hsecond')
  have hbucket : ∀ second,
      (order second : Multiset UserRef) = (it.usersOnline second).val := by
    intro second
    rw [← (horder second).2, List.toFinset_val, (horder second).1.dedup]
  have hsum : ((List.finRange 60).map fun second =>
        (order second : Multiset UserRef)).sum =
      (Finset.univ.disjiUnion it.usersOnline hdisj).val := by
    rw [← Fin.sum_univ_def, Finset.disjiUnion_val, Multiset.bind,
      Multiset.join]
    exact Finset.sum_congr rfl fun second _ => hbucket second
  refine ⟨Finset.univ.disjiUnion it.usersOnline hdisj, ?_, fun p => ?_⟩
  · rw [JobQueue.announceMinute, JobQueue.announced_foldl, hsum]
  · rw [Finset.mem_disjiUnion, CoreRatingData.connected_iff]
    simp only [Finset.mem_univ, true_and, h.buckets]

/-! ## §5  Any sequence of recalculations -/

structure CoreState (dm : DataModel) (n : ℕ) where
  userData : CoreRatingData dm := {}
  iterationData : IterationData := {}
  jobQueue : JobQueue n

/-- A call of `recalculate`, with the batch it takes. -/
def CoreState.recalculate (st : CoreState dm n)
    (call : IncomingDataBuffer dm × Bool) : Outcome (CoreState dm n) := do
  let s ← (RatingCalculatorImpl.create st.userData st.iterationData call.1
    st.jobQueue).recalculate call.2
  .ok ⟨s.userData, s.iterationData, s.jobQueue⟩

theorem CoreRatingData.isRegistered_iff {d : CoreRatingData dm} {id : IdT} :
    (d.userState id).isRegistered ↔
      id ∈ d.silentUsers ∨ id ∈ d.activeUsers := by
  rw [← AList.lookup_isSome, ← AList.lookup_isSome, userState]
  cases d.activeUsers.lookup id with
  | some u => simp [UserState.isRegistered]
  | none => cases d.silentUsers.lookup id <;> simp [UserState.isRegistered]

section Calls

variable {st st' : CoreState dm n} {call : IncomingDataBuffer dm × Bool}
  {calls : List (IncomingDataBuffer dm × Bool)}

theorem CoreState.recalculate_of_ok
    (hcons : Consistent st.userData st.iterationData)
    (hsec : call.1.SecondsOk) (hs : st.recalculate call = .ok st') :
    Consistent st'.userData st'.iterationData ∧
      ∀ id, (st'.userData.userState id).isRegistered ↔
        (st.userData.userState id).isRegistered ∨
          id ∈ call.1.usersRegistered := by
  obtain ⟨s', hs', hst'⟩ := bind_eq_ok.mp hs
  cases hst'
  have hkept := RatingCalculatorImpl.IsConsistent.recalculate
    (s := .create st.userData st.iterationData call.1 st.jobQueue) hcons hs'
  obtain ⟨-, hrecords⟩ := RatingCalculatorImpl.recalculate_of_ok
    (s := .create st.userData st.iterationData call.1 st.jobQueue)
    hcons.disjoint hsec hs'
  refine ⟨hkept, fun id => ?_⟩
  show (s'.userState id).isRegistered = true ↔ _
  rw [UserState.isRegistered_eq_isSome, (hrecords id).1,
    ← UserState.isRegistered_eq_isSome,
    RatingCalculatorImpl.isRegistered_batchState, Bool.or_eq_true]
  simp [RatingCalculatorImpl.create, RatingCalculatorImpl.userState]

theorem exec_consistent :
    ∀ (calls : List (IncomingDataBuffer dm × Bool)) (st st' : CoreState dm n),
      Consistent st.userData st.iterationData →
      (∀ call ∈ calls, call.1.SecondsOk) →
      exec CoreState.recalculate st calls = .ok st' →
      Consistent st'.userData st'.iterationData ∧
        ∀ id, (st'.userData.userState id).isRegistered ↔
          (st.userData.userState id).isRegistered ∨
            ∃ call ∈ calls, id ∈ call.1.usersRegistered
  | [], st, st', hcons, _, hs => by
      cases hs
      exact ⟨hcons, fun id => by simp⟩
  | call :: calls, st, st', hcons, hsec, hs => by
      obtain ⟨st₁, hcall, hs⟩ := exec_cons hs
      obtain ⟨hcons₁, hreg₁⟩ := CoreState.recalculate_of_ok hcons
        (hsec call List.mem_cons_self) hcall
      obtain ⟨hcons', hreg'⟩ := exec_consistent calls st₁ st' hcons₁
        (fun c hc => hsec c (List.mem_cons_of_mem _ hc)) hs
      refine ⟨hcons', fun id => ?_⟩
      rw [hreg', hreg₁, or_assoc]
      simp

/-- What the deals since the last drop bring a user; without one, on top of
`sum`. -/
def dealtSinceDrop (calls : List (IncomingDataBuffer dm × Bool)) (id : IdT)
    (sum : ℤ) : ℤ :=
  calls.foldl (fun sum call => (if call.2 then 0 else sum) +
    RatingCalculatorImpl.dealt call.1.dealsWon id) sum

def registeredIds (calls : List (IncomingDataBuffer dm × Bool)) : Finset IdT :=
  (calls.flatMap fun call => call.1.usersRegistered.keys).toFinset

def PositiveDeals (calls : List (IncomingDataBuffer dm × Bool)) : Prop :=
  ∀ call ∈ calls, ∀ (id : IdT) (a : MonetaryT dm),
    call.1.dealsWon[id]? = some a → 0 < a.toInt

theorem dealt_nonneg {deals : DealsMap dm} {id : IdT}
    (hpos : ∀ a : MonetaryT dm, deals[id]? = some a → 0 < a.toInt) :
    0 ≤ RatingCalculatorImpl.dealt deals id := by
  unfold RatingCalculatorImpl.dealt
  cases h : deals[id]? with
  | none => exact le_of_eq BitVec.toInt_zero.symm
  | some a => exact le_of_lt (hpos a h)

/-- What every call finds: a rating in order, nobody registered outside `ids`,
and nobody who has won more than his limit. -/
structure CoreState.Solvent (ids : Finset IdT) (limit : IdT → ℤ)
    (st : CoreState dm n) : Prop where
  integrity : st.userData.RatingIntegrity
  disjoint : st.userData.Disjoint
  registered : ∀ id, (st.userData.userState id).isRegistered → id ∈ ids
  nonneg : ∀ id, 0 ≤ limit id
  funded : RatingCalculatorImpl.Funded st.userData limit

variable {ids : Finset IdT} {limit : IdT → ℤ}

/-- The calculator of the call. -/
def CoreState.calculator (st : CoreState dm n)
    (call : IncomingDataBuffer dm × Bool) : RatingCalculatorImpl dm n :=
  .create st.userData st.iterationData call.1 st.jobQueue

theorem CoreState.Solvent.ready (h : st.Solvent ids limit)
    (hfew : ids.card < 2 ^ 31) (hsec : call.1.SecondsOk)
    (hreg : ∀ id ∈ call.1.usersRegistered, id ∈ ids) :
    (st.calculator call).Ready := by
  have hknown : (st.calculator call).knownUsers ⊆ ids := by
    intro id hid
    simp only [RatingCalculatorImpl.knownUsers, Finset.mem_union,
      List.mem_toFinset, Std.TreeMap.mem_keys] at hid
    rcases hid with hid | hid
    · exact h.registered id (CoreRatingData.isRegistered_iff.mpr hid)
    · exact hreg id hid
  exact ⟨h.integrity, h.disjoint, hsec, rfl, rfl,
    lt_of_le_of_lt (Finset.card_le_card hknown) hfew⟩

/-- Behind a drop nobody has anything. -/
theorem CoreState.Solvent.oldRated (h : st.Solvent ids limit) {id : IdT}
    {r : RatedData dm} (hr : (st.calculator call).oldRated call.2 id = some r) :
    r.amountWon.toInt ≤ if call.2 then 0 else limit id := by
  unfold RatingCalculatorImpl.oldRated at hr
  split at hr
  · cases hr
  · next hkept =>
    rw [if_neg hkept]
    exact h.funded id r hr

/-- **One call** with positive deals that do not overflow completes. -/
theorem CoreState.Solvent.recalculate (h : st.Solvent ids limit)
    (hfew : ids.card < 2 ^ 31) (hsec : call.1.SecondsOk)
    (hreg : ∀ id ∈ call.1.usersRegistered, id ∈ ids)
    (hpos : ∀ (id : IdT) (a : MonetaryT dm),
      call.1.dealsWon[id]? = some a → 0 < a.toInt)
    (hmax : ∀ id, dealtSinceDrop [call] id (limit id) <
      2 ^ (8 * dm.sizeofLong - 1)) :
    ∃ st', st.recalculate call = .ok st' ∧
      st'.Solvent ids fun id => dealtSinceDrop [call] id (limit id) := by
  have hleft : ∀ id, 0 ≤ if call.2 then 0 else limit id := by
    intro id
    split
    · exact le_rfl
    · exact h.nonneg id
  obtain ⟨s', hs', hranked, hfunded⟩ :=
    RatingCalculatorImpl.recalculate_of_funded (h.ready hfew hsec hreg) call.2
      hleft (fun _ _ hr => h.oldRated hr) hpos hmax
  refine ⟨⟨s'.userData, s'.iterationData, s'.jobQueue⟩, ?_, hranked.integrity,
    hranked.disjoint, ?_, ?_, hfunded⟩
  · rw [CoreState.recalculate]
    exact congrArg (· >>= _) hs'
  · intro id hid
    rw [hranked.registered, RatingCalculatorImpl.isRegistered_batchState,
      Bool.or_eq_true] at hid
    rcases hid with hid | hid
    · exact h.registered id hid
    · exact hreg id (Std.TreeMap.mem_iff_isSome_getElem?.mpr hid)
  · intro id
    exact add_nonneg (hleft id) (dealt_nonneg (hpos id))

theorem exec_completes (hfew : ids.card < 2 ^ 31) :
    ∀ (calls : List (IncomingDataBuffer dm × Bool)) (st : CoreState dm n)
      (limit : IdT → ℤ), st.Solvent ids limit →
      (∀ call ∈ calls, call.1.SecondsOk) →
      (∀ call ∈ calls, ∀ id ∈ call.1.usersRegistered, id ∈ ids) →
      PositiveDeals calls →
      (∀ pre, pre <+: calls → ∀ id,
        dealtSinceDrop pre id (limit id) < 2 ^ (8 * dm.sizeofLong - 1)) →
      ∃ st', exec CoreState.recalculate st calls = .ok st'
  | [], st, _, _, _, _, _, _ => ⟨st, rfl⟩
  | call :: calls, st, limit, h, hsec, hreg, hpos, hmax => by
      obtain ⟨st₁, hst₁, h₁⟩ := h.recalculate hfew
        (hsec call List.mem_cons_self) (hreg call List.mem_cons_self)
        (hpos call List.mem_cons_self)
        (hmax [call] (List.prefix_append [call] calls))
      obtain ⟨st', hst'⟩ := exec_completes hfew calls st₁ _ h₁
        (fun c hc => hsec c (List.mem_cons_of_mem _ hc))
        (fun c hc => hreg c (List.mem_cons_of_mem _ hc))
        (fun c hc => hpos c (List.mem_cons_of_mem _ hc))
        (fun pre hpre => hmax (call :: pre)
          (List.cons_prefix_cons.mpr ⟨rfl, hpre⟩))
      refine ⟨st', ?_⟩
      rw [exec, hst₁]
      exact hst'

/-- **User tables and announcement buckets stay consistent**: after every
call of any sequence that starts on empty tables, nobody is in both tables,
who was ever registered is in one of them, records are under their ids, the
buckets hold the connected active users at their seconds, and a minute of the
announcer enqueues each of them exactly once. With positive deals whose sums
since the last drop do not overflow, all calls complete while fewer than 2^31
users are registered. -/
theorem tables_consistent (q : JobQueue n)
    (calls : List (IncomingDataBuffer dm × Bool))
    (hsec : ∀ call ∈ calls, call.1.SecondsOk) :
    (∀ pre, pre <+: calls → ∀ st,
      exec CoreState.recalculate { jobQueue := q } pre = .ok st →
        st.userData.Disjoint ∧
        (∀ id, id ∈ st.userData.silentUsers ∨ id ∈ st.userData.activeUsers ↔
          ∃ call ∈ pre, id ∈ call.1.usersRegistered) ∧
        (∀ id u, st.userData.activeUsers.lookup id = some u → u.id = id) ∧
        (∀ second p, p ∈ st.iterationData.usersOnline second ↔
          st.userData.ConnectedAt second p) ∧
        ∀ order, st.iterationData.Enumerates order →
          ∃ fresh : Finset UserRef,
            (st.jobQueue.announceMinute order).announced =
              st.jobQueue.announced + fresh.val ∧
            ∀ p, p ∈ fresh ↔ st.userData.Connected p) ∧
    (PositiveDeals calls →
      (∀ pre, pre <+: calls → ∀ id,
        dealtSinceDrop pre id 0 < 2 ^ (8 * dm.sizeofLong - 1)) →
      (registeredIds calls).card < 2 ^ 31 →
      ∃ st, exec CoreState.recalculate { jobQueue := q } calls = .ok st) := by
  have hempty : ∀ id, (({} : CoreRatingData dm).userState id).isRegistered =
      false := fun _ => rfl
  constructor
  · rintro pre ⟨post, rfl⟩ st hst
    obtain ⟨hcons, hreg⟩ := exec_consistent pre { jobQueue := q } st
      consistent_empty
      (fun call hcall => hsec call (List.mem_append_left _ hcall)) hst
    refine ⟨hcons.disjoint, fun id => ?_, hcons.keyed, hcons.buckets,
      fun order horder => hcons.announceMinute horder _⟩
    rw [← CoreRatingData.isRegistered_iff, hreg, hempty]
    simp
  · intro hpos hmax hfew
    have hsolvent : ({ jobQueue := q } : CoreState dm n).Solvent
        (registeredIds calls) fun _ => 0 :=
      { integrity := CoreRatingData.ratingIntegrity_nil rfl fun _ => rfl
        disjoint := fun _ _ _ => rfl
        registered := fun id hid => by cases hid
        nonneg := fun _ => le_refl 0
        funded := fun id r hr => by cases hr }
    refine exec_completes hfew calls _ _ hsolvent hsec ?_ hpos hmax
    intro call hcall id hid
    rw [registeredIds, List.mem_toFinset, List.mem_flatMap]
    exact ⟨call, hcall, Std.TreeMap.mem_keys.mpr hid⟩

end Calls

/-- Three users who win; a rename, a move to another second and a new user in
the next minute; a weekly drop, with a deal of one who was in the rating and of
the new one. -/
def winThenDrop : List (IncomingDataBuffer .lp64 × Bool) :=
  [({ usersRegistered := ((∅ : UserNameMap).insert 1 []).insert 2 []
        |>.insert 3 []
      connectionChanges := ((∅ : ConnectionsMap).insert 1 5).insert 2 5
      dealsWon := ((∅ : DealsMap .lp64).insert 1 10).insert 2 20
        |>.insert 3 20 }, false),
    ({ usersRegistered := (∅ : UserNameMap).insert 4 []
       usersRenamed := (∅ : UserNameMap).insert 2 [65]
       connectionChanges := ((∅ : ConnectionsMap).insert 2 7).insert 4 7
       dealsWon := (∅ : DealsMap .lp64).insert 1 15 }, false),
    ({ dealsWon := ((∅ : DealsMap .lp64).insert 2 3).insert 4 3 }, true)]

theorem winThenDrop_deals : ∀ call ∈ winThenDrop, ∀ (id : IdT)
    (a : MonetaryT .lp64), call.1.dealsWon[id]? = some a →
      0 < a.toInt ∧ a.toInt ≤ 20 := by
  intro call hcall id a ha
  have hall : ∀ call ∈ winThenDrop, call.1.dealsWon.toList.all
      fun deal => 0 < deal.2.toInt ∧ deal.2.toInt ≤ 20 := by
    decide +kernel
  exact of_decide_eq_true (List.all_eq_true.mp (hall call hcall) (id, a)
    (Std.TreeMap.mem_toList_iff_getElem?_eq_some.mpr ha))

theorem winThenDrop_seconds : ∀ call ∈ winThenDrop, call.1.SecondsOk := by
  intro call hcall id second h
  have hall : ∀ call ∈ winThenDrop, call.1.connectionChanges.toList.all
      fun change => change.2 < 60 ∨ change.2 = invalidSecond := by
    decide +kernel
  exact of_decide_eq_true (List.all_eq_true.mp (hall call hcall) (id, second)
    (Std.TreeMap.mem_toList_iff_getElem?_eq_some.mpr h))

theorem winThenDrop_sums (id : IdT) : ∀ pre, pre <+: winThenDrop →
    dealtSinceDrop pre id 0 ≤ 20 * pre.length := by
  intro pre hpre
  induction pre using List.reverseRecOn with
  | nil => exact le_rfl
  | append_singleton pre call ih =>
      have hcall : call ∈ winThenDrop :=
        hpre.subset (List.mem_append_right _ (List.mem_singleton_self _))
      have hdealt : RatingCalculatorImpl.dealt call.1.dealsWon id ≤ 20 := by
        unfold RatingCalculatorImpl.dealt
        cases h : call.1.dealsWon[id]? with
        | none => decide
        | some a => exact (winThenDrop_deals call hcall id a h).2
      have hsum := ih ((List.prefix_append _ _).trans hpre)
      rw [dealtSinceDrop, List.foldl_append, List.length_append,
        List.length_singleton]
      change (if call.2 then 0 else dealtSinceDrop pre id 0) + _ ≤ _
      split <;> push_cast <;> omega

/-- Behind the drop two users are announced once, and nobody is lost. -/
theorem winThenDrop_consistent :
    ∃ st, exec CoreState.recalculate { jobQueue := twoWorkers } winThenDrop =
        .ok st ∧
      (∀ id, id ∈ st.userData.silentUsers ∨ id ∈ st.userData.activeUsers ↔
        ∃ call ∈ winThenDrop, id ∈ call.1.usersRegistered) ∧
      ∃ fresh : Finset UserRef,
        (st.jobQueue.announceMinute fun second =>
            if second = 7 then [⟨2, 4⟩, ⟨4, 5⟩] else []).announced =
          st.jobQueue.announced + fresh.val ∧
        ∀ p, p ∈ fresh ↔ st.userData.Connected p := by
  obtain ⟨hkept, hcompletes⟩ :=
    tables_consistent twoWorkers winThenDrop winThenDrop_seconds
  obtain ⟨st, hst⟩ := hcompletes
    (fun call hcall id a ha => (winThenDrop_deals call hcall id a ha).1)
    (fun pre hpre id => by
      have hsum := winThenDrop_sums id pre hpre
      have hlength : pre.length ≤ 3 := hpre.length_le
      change _ < (2 : ℤ) ^ 63
      omega)
    (by decide +kernel)
  have hbucket : (exec CoreState.recalculate { jobQueue := twoWorkers }
      winThenDrop).toOption.map (fun st =>
        decide (st.iterationData.Enumerates fun second =>
          if second = 7 then [⟨2, 4⟩, ⟨4, 5⟩] else [])) = some true := by
    decide +kernel
  rw [hst] at hbucket
  obtain ⟨-, hids, -, -, hminute⟩ := hkept _ (List.prefix_refl _) st hst
  exact ⟨st, hst, hids,
    hminute _ (of_decide_eq_true (Option.some_inj.mp hbucket))⟩

end RatingService
