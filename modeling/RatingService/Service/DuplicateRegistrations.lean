import RatingService.Service.Minutes

/-!
# Duplicate registrations

Which registrations the calculator reports as duplicates. It sees what is left
of them in a batch, and the dispatcher leaves one per user and batch.

- §1: the errors in the job queue.
- §2: the errors of one recalculation.
- §3: the errors of a run, and the record that is kept.
- §4: two registrations in one minute.
-/

namespace RatingService

open Runs Dispatches

variable {dm : DataModel} {n : ℕ} {id : IdT}

/-! ## §1  Errors in the queue -/

namespace JobQueue

def errorCount (q : JobQueue n) (error : GenericProtocolError) : ℕ :=
  ∑ i, (q.queues i).errorQueue.count error

theorem errorCount_congr {q q' : JobQueue n}
    (h : ∀ i, (q'.queues i).errorQueue = (q.queues i).errorQueue)
    (error : GenericProtocolError) :
    q'.errorCount error = q.errorCount error := by
  simp only [errorCount, h]

theorem errorCount_enqueueErrorJob (q : JobQueue n)
    (error error' : GenericProtocolError) :
    (q.enqueueErrorJob error').errorCount error =
      q.errorCount error + if error' = error then 1 else 0 := by
  have hother : ∀ i ∈ Finset.univ.erase q.errorIndex,
      ((q.enqueueErrorJob error').queues i).errorQueue.count error =
        (q.queues i).errorQueue.count error := by
    intro i hi
    rw [errorQueue_enqueueErrorJob, if_neg (Finset.ne_of_mem_erase hi)]
  rw [errorCount, errorCount,
    ← Finset.add_sum_erase _ _ (Finset.mem_univ q.errorIndex),
    ← Finset.add_sum_erase _ _ (Finset.mem_univ q.errorIndex),
    Finset.sum_congr rfl hother, errorQueue_enqueueErrorJob, if_pos rfl,
    List.count_append, List.count_singleton]
  simp only [beq_iff_eq]
  exact add_right_comm _ _ _

end JobQueue

/-! ## §2  One recalculation -/

namespace RatingCalculatorImpl

variable {s s' : RatingCalculatorImpl dm n}

def duplicates (s : RatingCalculatorImpl dm n) (id : IdT) : ℕ :=
  s.jobQueue.errorCount (.multipleRegistration id)

theorem errorCount_unrecognized (q : JobQueue n) (id' : IdT) :
    (q.enqueueErrorJob (.userUnrecognized id')).errorCount
        (.multipleRegistration id) =
      q.errorCount (.multipleRegistration id) := by
  rw [JobQueue.errorCount_enqueueErrorJob, if_neg (by rintro ⟨⟩)]
  rfl

theorem userExists_eq_isRegistered (s : RatingCalculatorImpl dm n) (id : IdT) :
    s.userExists id = (s.userState id).isRegistered := by
  unfold userExists userState CoreRatingData.userState
  cases s.userData.activeUsers.lookup id with
  | some u => simp [UserState.isRegistered]
  | none =>
      cases s.userData.silentUsers.lookup id <;> simp [UserState.isRegistered]

theorem duplicates_processRegistration (e : IdT × BufferT) :
    (s.processRegistration e).duplicates e.1 =
      s.duplicates e.1 + if (s.userState e.1).isRegistered then 1 else 0 := by
  rw [← userExists_eq_isRegistered, processRegistration]
  split
  · next hex =>
    refine (JobQueue.errorCount_enqueueErrorJob _ _ _).trans ?_
    rw [if_pos rfl]
    rfl
  · rfl

theorem duplicates_processRegistration_ne {e : IdT × BufferT}
    (hid : id ≠ e.1) :
    (s.processRegistration e).duplicates id = s.duplicates id := by
  unfold processRegistration
  split
  · have hne : GenericProtocolError.multipleRegistration e.1 ≠
        .multipleRegistration id := fun heq =>
      hid (GenericProtocolError.multipleRegistration.inj heq).symm
    refine (JobQueue.errorCount_enqueueErrorJob _ _ _).trans ?_
    rw [if_neg hne]
    rfl
  · rfl

theorem duplicates_processRegistrations (s : RatingCalculatorImpl dm n)
    (id : IdT) :
    s.processRegistrations.duplicates id = s.duplicates id +
      if (s.incomingBuffer.usersRegistered[id]?).isSome ∧
        (s.userState id).isRegistered then 1 else 0 := by
  obtain ⟨hmem, hout⟩ := KeyedFold.foldl_view Prod.fst
    (fun (s : RatingCalculatorImpl dm n) k =>
      ((s.userState k).isRegistered, s.duplicates k))
    (fun _ old new => new.2 = old.2 + if old.1 then 1 else 0)
    (fun s e => duplicates_processRegistration e)
    (fun s e k hk => by
      rw [processRegistration_other s e hk,
        duplicates_processRegistration_ne hk])
    s.incomingBuffer.usersRegistered.toList s (nodup_toList_keys _)
  rcases getElem?_toList s.incomingBuffer.usersRegistered id with
    ⟨hnone, hid⟩ | ⟨name, hname, hid⟩
  · rw [hnone, if_neg (by simp)]
    exact congrArg Prod.snd (hout id hid)
  · rw [hname]
    simp only [Option.isSome_some, true_and]
    exact hmem _ hid

/-- **The duplicates a recalculation reports**: one for each user of the batch
who was known before. -/
theorem duplicates_recalculate {dropOldRating : Bool}
    (hdisj : s.userData.Disjoint)
    (hs : s.recalculate dropOldRating = .ok s') :
    s'.duplicates id = s.duplicates id +
      if (s.incomingBuffer.usersRegistered[id]?).isSome ∧
        (s.userState id).isRegistered then 1 else 0 := by
  -- the drop
  obtain ⟨s₀, hs₀, hbuffer, hcount, hknown⟩ : ∃ s₀,
      (if dropOldRating then s.dropRating else s) = s₀ ∧
      s₀.incomingBuffer = s.incomingBuffer ∧
      s₀.duplicates id = s.duplicates id ∧
      (s₀.userState id).isRegistered = (s.userState id).isRegistered := by
    cases dropOldRating with
    | true =>
        refine ⟨_, rfl, rfl, rfl, ?_⟩
        rw [if_pos rfl, dropRating_userState hdisj,
          UserState.isRegistered_dropped]
    | false => exact ⟨_, rfl, rfl, rfl, rfl⟩
  have hregistered := duplicates_processRegistrations s₀ id
  rw [hbuffer, hcount, hknown] at hregistered
  -- nothing behind the registrations reports a duplicate
  have hbehind := jobQueue_processRegistrations
    (f := fun q => q.errorCount (.multipleRegistration id))
    errorCount_unrecognized hs
  rw [hs₀] at hbehind
  exact hbehind.trans hregistered

end RatingCalculatorImpl

/-! ## §3  A run -/

namespace Minute

def update (m : Minute dm) (id : IdT) (u : BasicUserData) : BasicUserData :=
  let u := (m.messages.renames id).head?.elim u fun name => { u with name }
  (m.messages.connections id).getLast?.elim u u.reconnect

theorem basic_some (m : Minute dm) (id : IdT) (u : BasicUserData) :
    m.basic id (some u) = some (m.update id u) := by
  unfold basic update
  cases (m.messages.registrations id).head? <;>
    cases (m.messages.renames id).head? <;>
    cases (m.messages.connections id).getLast? <;> rfl

theorem basic_none {m : Minute dm} {name : BufferT}
    (h : (m.messages.registrations id).head? = some name) :
    m.basic id none = some (m.update id { name }) := by
  unfold basic update
  rw [h]
  cases (m.messages.renames id).head? <;>
    cases (m.messages.connections id).getLast? <;> rfl

theorem basic_none_of_unregistered {m : Minute dm}
    (h : m.messages.registrations id = []) : m.basic id none = none := by
  unfold basic
  rw [h]
  cases (m.messages.renames id).head? <;>
    cases (m.messages.connections id).getLast? <;> rfl

end Minute

theorem foldl_basic_some (ms : List (Minute dm)) (u : BasicUserData) :
    ms.foldl (fun b m => m.basic id b) (some u) =
      some (ms.foldl (fun u m => m.update id u) u) := by
  induction ms generalizing u with
  | nil => rfl
  | cons m ms ih => rw [List.foldl_cons, Minute.basic_some, ih, List.foldl_cons]

theorem foldl_basic_none {ms : List (Minute dm)}
    (h : ∀ m ∈ ms, m.messages.registrations id = []) :
    ms.foldl (fun b m => m.basic id b) none = none := by
  induction ms with
  | nil => rfl
  | cons m ms ih =>
      rw [List.foldl_cons,
        Minute.basic_none_of_unregistered (h m List.mem_cons_self)]
      exact ih fun m' hm' => h m' (List.mem_cons_of_mem _ hm')

def registeringMinutes (id : IdT) (ms : List (Minute dm)) : ℕ :=
  ms.countP fun m => m.messages.registrations id ≠ []

namespace ServiceState

variable {st st' : ServiceState dm n} {m : Minute dm}

def duplicates (st : ServiceState dm n) (id : IdT) : ℕ :=
  st.jobQueue.errorCount (.multipleRegistration id)

theorem duplicates_minute (hrested : st.Rested)
    (hs : st.minute m = .ok st') :
    st'.duplicates id = st.duplicates id +
      if m.messages.registrations id ≠ [] ∧ (st.basic id).isSome then 1
      else 0 := by
  obtain ⟨q, incomingData, herrors, -, hminute⟩ := minute_eq (m := m) hrested
  rw [hminute] at hs
  obtain ⟨s', hs', hst'⟩ := bind_eq_ok.mp hs
  cases hst'
  have hcount : s'.duplicates id = _ :=
    RatingCalculatorImpl.duplicates_recalculate
      (s := .create st.userData st.iterationData (dispatchAll m.messages) q)
      hrested.consistent.disjoint hs'
  have hsome : ((dispatchAll m.messages).usersRegistered[id]?).isSome ↔
      m.messages.registrations id ≠ [] := by
    rw [dispatchAll_usersRegistered, List.isSome_head?]
  refine hcount.trans ?_
  rw [basic, ← UserState.isRegistered_eq_isSome]
  exact congrArg₂ (· + ·) (JobQueue.errorCount_congr herrors _)
    (if_congr (and_congr_left' hsome) rfl rfl)

/-- For a known user, every minute that registers him brings an error. -/
theorem duplicates_minutes_known (ms : List (Minute dm))
    {st st' : ServiceState dm n} (hrested : st.Rested)
    (hknown : (st.basic id).isSome)
    (hs : exec minute st ms = .ok st') :
    st'.duplicates id = st.duplicates id + registeringMinutes id ms := by
  induction ms generalizing st with
  | nil =>
      cases hs
      rfl
  | cons m ms ih =>
      obtain ⟨st₁, hm, hs⟩ := exec_cons hs
      obtain ⟨hrested₁, hbasic₁⟩ := minute_of_ok hrested hm
      obtain ⟨u, hu⟩ := Option.isSome_iff_exists.mp hknown
      have hknown₁ : (st₁.basic id).isSome := by
        have hbasic := (hbasic₁ id).1
        rw [show (st.userData.userState id).basic = some u from hu,
          Minute.basic_some] at hbasic
        rw [basic, hbasic]
        rfl
      have hcount : st₁.duplicates id = _ := duplicates_minute hrested hm
      rw [ih hrested₁ hknown₁ hs, hcount, registeringMinutes,
        registeringMinutes, List.countP_cons]
      simp only [hknown, and_true, decide_eq_true_eq]
      omega

/-- The first minute that registers a user brings none. -/
theorem duplicates_minutes_new (ms : List (Minute dm))
    {st st' : ServiceState dm n} (hrested : st.Rested)
    (hnew : st.basic id = none) (hs : exec minute st ms = .ok st') :
    st'.duplicates id =
      st.duplicates id + (registeringMinutes id ms - 1) := by
  induction ms generalizing st with
  | nil =>
      cases hs
      rfl
  | cons m ms ih =>
      obtain ⟨st₁, hm, hs⟩ := exec_cons hs
      obtain ⟨hrested₁, hbasic₁⟩ := minute_of_ok hrested hm
      have hbasic : st₁.basic id = m.basic id none := by
        rw [basic, (hbasic₁ id).1]
        exact congrArg _ hnew
      have hcount : st₁.duplicates id = _ := duplicates_minute hrested hm
      rw [if_neg (by simp [hnew]), Nat.add_zero] at hcount
      rw [registeringMinutes, List.countP_cons]
      cases hreg : m.messages.registrations id with
      | nil =>
          rw [Minute.basic_none_of_unregistered hreg] at hbasic
          rw [ih hrested₁ hbasic hs, hcount, registeringMinutes]
          simp
      | cons name rest =>
          rw [Minute.basic_none (by rw [hreg]; rfl)] at hbasic
          rw [duplicates_minutes_known ms hrested₁ (by rw [hbasic]; rfl) hs,
            hcount, registeringMinutes]
          simp

end ServiceState

theorem registeringMinutes_spec (id : IdT) (ms : List (Minute dm)) :
    registeringMinutes id ms ≤ (registrations id (allMessages ms)).length ∧
      ((registrations id (allMessages ms)).length = 0 ∨
        0 < registeringMinutes id ms) ∧
      (registeringMinutes id ms = (registrations id (allMessages ms)).length ↔
        ∀ m ∈ ms, (registrations id m.messages).length ≤ 1) := by
  induction ms with
  | nil => exact ⟨le_refl 0, Or.inl rfl, fun _ _ => nofun, fun _ => rfl⟩
  | cons m ms ih =>
      have hlength : (registrations id (allMessages (m :: ms))).length =
          (registrations id m.messages).length +
            (registrations id (allMessages ms)).length := by
        rw [allMessages, List.flatMap_cons, registrations_append,
          List.length_append]
        rfl
      have hcount : registeringMinutes id (m :: ms) =
          registeringMinutes id ms +
            if (registrations id m.messages).length = 0 then 0 else 1 := by
        rw [registeringMinutes, List.countP_cons]
        cases registrations id m.messages <;> rfl
      obtain ⟨hle, hpos, hiff⟩ := ih
      rw [hlength, hcount, List.forall_mem_cons, ← hiff]
      split <;> omega

/-- The record is the one of the first registration, with the renames and the
connection changes since then. -/
def KeepsFirst (id : IdT) (ms : List (Minute dm))
    (b : Option BasicUserData) : Prop :=
  ∀ pre m post name, ms = pre ++ m :: post →
    (∀ m' ∈ pre, m'.messages.registrations id = []) →
    (m.messages.registrations id).head? = some name →
    b = some ((m :: post).foldl (fun u m => m.update id u) { name })

theorem keepsFirst_foldl (ms : List (Minute dm)) :
    KeepsFirst id ms (ms.foldl (fun b m => m.basic id b) none) := by
  rintro pre m post name rfl hpre hname
  rw [List.foldl_append, foldl_basic_none hpre, List.foldl_cons,
    Minute.basic_none hname, foldl_basic_some, List.foldl_cons]

/-- **Exactly when all duplicate registrations are reported**: from any state
at rest in which the user is not registered, behind the recalculations there
is one error less than he has registrations, and his record is the one of the
first of them, if and only if no minute has two of them. -/
theorem duplicates_reported_iff (ms : List (Minute dm))
    {st st' : ServiceState dm n} (hrested : st.Rested)
    (hnew : st.basic id = none)
    (hs : exec ServiceState.minute st ms = .ok st') :
    (st'.duplicates id = st.duplicates id +
          ((registrations id (allMessages ms)).length - 1) ∧
        KeepsFirst id ms (st'.basic id)) ↔
      ∀ m ∈ ms, (registrations id m.messages).length ≤ 1 := by
  obtain ⟨-, hbasic⟩ := ServiceState.minutes_of_ok ms hrested hs
  have hkeeps : KeepsFirst id ms (st'.basic id) := by
    rw [hbasic, hnew]
    exact keepsFirst_foldl ms
  rw [and_iff_left hkeeps,
    ServiceState.duplicates_minutes_new ms hrested hnew hs]
  obtain ⟨hle, hpos, hiff⟩ := registeringMinutes_spec id ms
  rw [← hiff]
  omega

/-! ## §4  Two registrations -/

/-- User 1 is registered as `a`, and as `b`. -/
def registeredTwice : Dispatches .lp64 :=
  [(0, .registered ⟨⟨1⟩, [97]⟩), (0, .registered ⟨⟨1⟩, [98]⟩)]

/-- In two minutes: the second registration is reported. -/
theorem duplicates_apart :
    ∃ st, exec ServiceState.minute { jobQueue := oneWorker }
        (registeredTwice.map fun msg => ⟨[msg], false⟩) = .ok st ∧
      st.duplicates 1 = 1 := by
  obtain ⟨st, hst⟩ : ∃ st, exec ServiceState.minute { jobQueue := oneWorker }
      (registeredTwice.map fun msg => ⟨[msg], false⟩) = .ok st := ⟨_, rfl⟩
  have hrun := duplicates_reported_iff _ (ServiceState.rested_init oneWorker)
    (rfl : ServiceState.basic _ 1 = none) hst
  exact ⟨st, hst, (hrun.mpr (by decide)).1⟩

/-- In one minute: it is not. -/
theorem duplicates_together :
    ∃ st, exec ServiceState.minute { jobQueue := oneWorker }
        [⟨registeredTwice, false⟩] = .ok st ∧
      st.duplicates 1 = 0 ∧
      (registrations 1 registeredTwice).length - 1 = 1 :=
  ⟨_, rfl, rfl, rfl⟩

end RatingService
