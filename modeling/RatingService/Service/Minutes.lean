import RatingService.Service.Announcement
import RatingService.Service.ServiceRun

/-!
# The service minute by minute

A run cut at its recalculations. What a minute's messages leave in the buffer
is, for every user, the first of his registrations, the first of his renames,
the last of his connection changes and the sum of his deals.

- §1: a user's messages.
- §2: what the buffer keeps of them.
- §3: one minute.
- §4: runs of minutes.
-/

namespace RatingService

open Runs

variable {dm : DataModel} {n : ℕ}

/-! ## §1  A user's messages -/

abbrev Dispatches (dm : DataModel) := List (Fin 60 × ClientMessage dm)

namespace Dispatches

def registrations (id : IdT) (msgs : Dispatches dm) : List BufferT :=
  msgs.filterMap fun
    | (_, .registered msg) => if msg.userId = id then some msg.userName else none
    | _ => none

def renames (id : IdT) (msgs : Dispatches dm) : List BufferT :=
  msgs.filterMap fun
    | (_, .renamed msg) => if msg.userId = id then some msg.userName else none
    | _ => none

def connections (id : IdT) (msgs : Dispatches dm) : List ConnectTimeT :=
  msgs.filterMap fun
    | (second, .connected msg) =>
        if msg.userId = id then some (UInt8.ofNat second.val) else none
    | (_, .disconnected msg) =>
        if msg.userId = id then some invalidSecond else none
    | _ => none

def deals (id : IdT) (msgs : Dispatches dm) : List (MonetaryT dm) :=
  msgs.filterMap fun
    | (_, .dealWon msg) => if msg.userId = id then some msg.winnings else none
    | _ => none

section Append

variable (id : IdT) (msgs msgs' : Dispatches dm)

theorem registrations_append : registrations id (msgs ++ msgs') =
    registrations id msgs ++ registrations id msgs' :=
  List.filterMap_append

theorem renames_append : renames id (msgs ++ msgs') =
    renames id msgs ++ renames id msgs' :=
  List.filterMap_append

theorem connections_append : connections id (msgs ++ msgs') =
    connections id msgs ++ connections id msgs' :=
  List.filterMap_append

theorem deals_append : deals id (msgs ++ msgs') =
    deals id msgs ++ deals id msgs' :=
  List.filterMap_append

end Append

end Dispatches

/-! ## §2  What the buffer keeps -/

theorem compare_eq_iff {id id' : IdT} : compare id id' = .eq ↔ id = id' :=
  Std.LawfulEqOrd.compare_eq_iff_eq

theorem getElem?_insertIfNew {V : Type} (m : Std.TreeMap IdT V)
    (id id' : IdT) (v : V) :
    (m.insertIfNew id v)[id']? =
      if id = id' then some (m[id']?.getD v) else m[id']? := by
  rw [Std.TreeMap.getElem?_insertIfNew]
  by_cases hid : id = id'
  · subst hid
    rw [if_pos rfl]
    cases hv : m[id]? with
    | none =>
        have hnot : id ∉ m := by simpa using hv
        rw [if_pos ⟨compare_eq_iff.mpr rfl, hnot⟩, Option.getD_none]
    | some w =>
        have hmem : id ∈ m :=
          Std.TreeMap.mem_iff_isSome_getElem?.mpr (by rw [hv]; rfl)
        rw [if_neg fun h => h.2 hmem, Option.getD_some]
  · rw [if_neg hid, if_neg fun h => hid (compare_eq_iff.mp h.1)]

theorem getElem?_insert {V : Type} (m : Std.TreeMap IdT V) (id id' : IdT)
    (v : V) :
    (m.insert id v)[id']? = if id = id' then some v else m[id']? := by
  rw [Std.TreeMap.getElem?_insert]
  simp only [compare_eq_iff]

namespace Dispatches

/-! One message about a user, or about another one. -/

section Singletons

variable (id : IdT) (second : Fin 60)

theorem registrations_registered (msg : UserRegisteredMsg) :
    registrations id
        ([(second, .registered msg)] : Dispatches dm) =
      if msg.userId = id then [msg.userName] else [] := by
  by_cases h : msg.userId = id <;> simp [registrations, h]

theorem renames_renamed (msg : UserRenamedMsg) :
    renames id
        ([(second, .renamed msg)] : Dispatches dm) =
      if msg.userId = id then [msg.userName] else [] := by
  by_cases h : msg.userId = id <;> simp [renames, h]

theorem connections_connected (msg : UserConnectedMsg) :
    connections id
        ([(second, .connected msg)] : Dispatches dm) =
      if msg.userId = id then [UInt8.ofNat second.val] else [] := by
  by_cases h : msg.userId = id <;> simp [connections, h]

theorem connections_disconnected (msg : UserDisconnectedMsg) :
    connections id
        ([(second, .disconnected msg)] : Dispatches dm) =
      if msg.userId = id then [invalidSecond] else [] := by
  by_cases h : msg.userId = id <;> simp [connections, h]

theorem deals_dealWon (msg : UserDealWonMsg dm) :
    deals id [(second, .dealWon msg)] =
      if msg.userId = id then [msg.winnings] else [] := by
  by_cases h : msg.userId = id <;> simp [deals, h]

end Singletons

/-- Of several registrations the first one. -/
theorem dispatchAll_usersRegistered (id : IdT) (msgs : Dispatches dm) :
    (dispatchAll msgs).usersRegistered[id]? =
      (msgs.registrations id).head? := by
  induction msgs using List.reverseRecOn with
  | nil => exact Std.TreeMap.getElem?_emptyc
  | append_singleton msgs msg ih =>
      obtain ⟨second, msg⟩ := msg
      rw [dispatchAll_append, registrations_append]
      cases msg with
      | registered msg =>
          show (Std.TreeMap.insertIfNew _ msg.userId msg.userName)[id]? = _
          rw [getElem?_insertIfNew, ih, List.head?_append]
          rw [registrations_registered]
          by_cases hid : msg.userId = id
          · rw [if_pos hid, if_pos hid]
            cases (registrations id msgs).head? <;> rfl
          · rw [if_neg hid, if_neg hid]
            exact (Option.or_none).symm
      | _ => exact ih.trans (congrArg _ (List.append_nil _).symm)

/-- Of several renames the first one. -/
theorem dispatchAll_usersRenamed (id : IdT) (msgs : Dispatches dm) :
    (dispatchAll msgs).usersRenamed[id]? = (msgs.renames id).head? := by
  induction msgs using List.reverseRecOn with
  | nil => exact Std.TreeMap.getElem?_emptyc
  | append_singleton msgs msg ih =>
      obtain ⟨second, msg⟩ := msg
      rw [dispatchAll_append, renames_append]
      cases msg with
      | renamed msg =>
          show (Std.TreeMap.insertIfNew _ msg.userId msg.userName)[id]? = _
          rw [getElem?_insertIfNew, ih, List.head?_append]
          rw [renames_renamed]
          by_cases hid : msg.userId = id
          · rw [if_pos hid, if_pos hid]
            cases (renames id msgs).head? <;> rfl
          · rw [if_neg hid, if_neg hid]
            exact (Option.or_none).symm
      | _ => exact ih.trans (congrArg _ (List.append_nil _).symm)

/-- Of several connection changes the last one. -/
theorem dispatchAll_connectionChanges (id : IdT) (msgs : Dispatches dm) :
    (dispatchAll msgs).connectionChanges[id]? =
      (msgs.connections id).getLast? := by
  induction msgs using List.reverseRecOn with
  | nil => exact Std.TreeMap.getElem?_emptyc
  | append_singleton msgs msg ih =>
      obtain ⟨second, msg⟩ := msg
      rw [dispatchAll_append, connections_append]
      cases msg with
      | connected msg =>
          show (Std.TreeMap.insert _ msg.userId _)[id]? = _
          rw [getElem?_insert, ih]
          rw [connections_connected]
          by_cases hid : msg.userId = id
          · rw [if_pos hid, if_pos hid, List.getLast?_concat]
          · rw [if_neg hid, if_neg hid, List.append_nil]
      | disconnected msg =>
          show (Std.TreeMap.insert _ msg.userId _)[id]? = _
          rw [getElem?_insert, ih]
          rw [connections_disconnected]
          by_cases hid : msg.userId = id
          · rw [if_pos hid, if_pos hid, List.getLast?_concat]
          · rw [if_neg hid, if_neg hid, List.append_nil]
      | _ => exact ih.trans (congrArg _ (List.append_nil _).symm)

/-- The deals are added up. -/
theorem dispatchAll_dealsWon (id : IdT) (msgs : Dispatches dm) :
    (dispatchAll msgs).dealsWon[id]? =
      if msgs.deals id = [] then none else some (msgs.deals id).sum := by
  induction msgs using List.reverseRecOn with
  | nil => exact Std.TreeMap.getElem?_emptyc
  | append_singleton msgs msg ih =>
      obtain ⟨second, msg⟩ := msg
      rw [dispatchAll_append, deals_append]
      cases msg with
      | dealWon msg =>
          show (Std.TreeMap.insert _ msg.userId _)[id]? = _
          rw [getElem?_insert, ih, deals_dealWon]
          by_cases hid : msg.userId = id
          · have hne : deals id msgs ++ [msg.winnings] ≠ [] := by simp
            rw [if_pos hid, if_pos hid, hid, ih, if_neg hne, List.sum_append,
              List.sum_singleton]
            split
            · next h => rw [h]; rfl
            · rfl
          · rw [if_neg hid, if_neg hid, List.append_nil]
      | _ =>
          refine ih.trans ?_
          rw [show deals id [_] = [] from rfl, List.append_nil]

theorem isSome_dealsWon (id : IdT) (msgs : Dispatches dm) :
    ((dispatchAll msgs).dealsWon[id]?).isSome =
      decide (msgs.deals id ≠ []) := by
  rw [dispatchAll_dealsWon]
  split
  · next h => simp [h]
  · next h => simp [h]

end Dispatches

/-! ## §3  One minute -/

def BasicUserData.reconnect (u : BasicUserData) (second : ConnectTimeT) :
    BasicUserData :=
  if h : second < 60 ∨ second = invalidSecond then
    { u with secondConnected := ⟨second, h⟩ }
  else u

namespace UserState

theorem basic_dropped (st : UserState dm) : st.dropped.basic = st.basic := by
  cases st <;> rfl

theorem basic_registered (name : BufferT) (st : UserState dm) :
    (st.registered name).basic = some (st.basic.getD { name }) := by
  cases st <;> rfl

theorem basic_renamed (name : BufferT) (st : UserState dm) :
    (st.renamed name).basic = st.basic.map ({ · with name }) := by
  cases st <;> rfl

theorem basic_connected (second : ConnectTimeT) (st : UserState dm) :
    (st.connected second).basic = st.basic.map (·.reconnect second) := by
  unfold connected BasicUserData.reconnect
  split
  · cases st <;> rfl
  · cases st <;> rfl

end UserState

/-- The messages dispatched before a recalculation, and its argument. -/
structure Minute (dm : DataModel) where
  messages : Dispatches dm
  dropOldRating : Bool := false

def Minute.events (m : Minute dm) : List (ServiceEvent dm) :=
  m.messages.map (fun msg => .message msg.1 msg.2) ++
    [.recalculate m.dropOldRating]

def Minute.basic (m : Minute dm) (id : IdT) (b : Option BasicUserData) :
    Option BasicUserData :=
  let b := (m.messages.registrations id).head?.elim b
    fun name => some (b.getD { name })
  let b := (m.messages.renames id).head?.elim b
    fun name => b.map ({ · with name })
  (m.messages.connections id).getLast?.elim b
    fun second => b.map (·.reconnect second)

theorem Minute.basic_batchState (m : Minute dm) (d : CoreRatingData dm)
    (it : IterationData) (q : JobQueue n) (id : IdT) :
    ((RatingCalculatorImpl.create d it (dispatchAll m.messages) q).batchState
        m.dropOldRating id).basic = m.basic id (d.userState id).basic := by
  rw [basic, ← Dispatches.dispatchAll_usersRegistered,
    ← Dispatches.dispatchAll_usersRenamed,
    ← Dispatches.dispatchAll_connectionChanges]
  have hdropped : (if m.dropOldRating then (d.userState id).dropped
      else d.userState id).basic = (d.userState id).basic := by
    split
    · exact UserState.basic_dropped _
    · rfl
  rw [← hdropped]
  simp only [RatingCalculatorImpl.batchState, RatingCalculatorImpl.create,
    RatingCalculatorImpl.userState]
  cases (dispatchAll m.messages).usersRegistered[id]? <;>
    cases (dispatchAll m.messages).usersRenamed[id]? <;>
    cases (dispatchAll m.messages).connectionChanges[id]? <;>
    simp only [Option.elim_none, Option.elim_some, UserState.basic_connected,
      UserState.basic_renamed, UserState.basic_registered]

theorem dispatchAll_secondsOk (msgs : Dispatches dm) :
    (dispatchAll msgs).SecondsOk := by
  induction msgs using List.reverseRecOn with
  | nil => exact secondsOk_empty
  | append_singleton msgs msg ih =>
      rw [dispatchAll_append]
      exact dispatch_secondsOk msg.1 _ msg.2 ih

namespace ServiceState

variable {st st' : ServiceState dm n} {m : Minute dm}

def minute (st : ServiceState dm n) (m : Minute dm) :
    Outcome (ServiceState dm n) :=
  exec step st m.events

/-- Behind a recalculation: the tables are consistent, the buffers empty. -/
structure Rested (st : ServiceState dm n) : Prop where
  consistent : Consistent st.userData st.iterationData
  empty : ∀ i, st.incomingData.buffers i = {}

theorem rested_init (q : JobQueue n) :
    ({ jobQueue := q } : ServiceState dm n).Rested :=
  ⟨consistent_empty, fun _ => rfl⟩

/-- A state in which only the messages have been taken in. -/
structure Took (st : ServiceState dm n) (msgs : Dispatches dm)
    (st' : ServiceState dm n) : Prop where
  userData : st'.userData = st.userData
  iterationData : st'.iterationData = st.iterationData
  index : st'.incomingData.currentBufferIndex =
    st.incomingData.currentBufferIndex
  current : st'.incomingData.currentBuffer = dispatchAll msgs
  other : ∀ i, i ≠ st.incomingData.currentBufferIndex →
    st'.incomingData.buffers i = st.incomingData.buffers i
  errors : ∀ i, (st'.jobQueue.queues i).errorQueue =
    (st.jobQueue.queues i).errorQueue

theorem errorQueue_dispatch (second : Fin 60) (buffer : IncomingDataBuffer dm)
    (q : JobQueue n) (msg : ClientMessage dm) (i : Fin n) :
    ((dispatch second buffer q msg).2.queues i).errorQueue =
      (q.queues i).errorQueue := by
  cases msg with
  | connected msg => exact JobQueue.errorQueue_enqueuePromise _ _ _
  | _ => rfl

theorem step_message (st : ServiceState dm n) (second : Fin 60)
    (msg : ClientMessage dm) :
    st.step (.message second msg) = .ok { st with
      incomingData :=
        st.incomingData.setBuffer st.incomingData.currentBufferIndex
          (st.incomingData.currentBuffer.record second msg)
      jobQueue := (dispatch second st.incomingData.currentBuffer
        st.jobQueue msg).2 } := by
  rw [← dispatch_fst second _ st.jobQueue]
  rfl

/-- **The messages of a minute** go into the current buffer. -/
theorem exec_messages (hempty : st.incomingData.currentBuffer = {})
    (msgs : Dispatches dm) :
    ∃ st', exec step st (msgs.map fun msg => .message msg.1 msg.2) = .ok st' ∧
      st.Took msgs st' := by
  induction msgs using List.reverseRecOn with
  | nil => exact ⟨st, rfl, rfl, rfl, rfl, hempty, fun _ _ => rfl, fun _ => rfl⟩
  | append_singleton msgs msg ih =>
      obtain ⟨st₁, hst₁, h⟩ := ih
      rw [List.map_append, exec_append, hst₁]
      show ∃ st', exec step st₁ [.message msg.1 msg.2] = .ok st' ∧ _
      rw [exec_singleton, step_message]
      refine ⟨_, rfl, h.userData, h.iterationData, h.index, ?_, ?_, ?_⟩
      · rw [h.current, dispatchAll_append]
        exact Function.update_self ..
      · intro i hi
        rw [← h.other i hi]
        exact Function.update_of_ne (h.index ▸ hi) ..
      · intro i
        exact (errorQueue_dispatch ..).trans (h.errors i)

/-- **One minute** is a recalculation of what its messages leave in the
buffer. -/
theorem minute_eq (hrested : st.Rested) :
    ∃ (q : JobQueue n) (incomingData : IncomingDataDoubleBuffer dm),
      (∀ i, (q.queues i).errorQueue = (st.jobQueue.queues i).errorQueue) ∧
      (∀ i, i ≠ incomingData.currentBufferIndex →
        incomingData.buffers i = {}) ∧
      st.minute m = (do
        let s ← (RatingCalculatorImpl.create st.userData st.iterationData
          (dispatchAll m.messages) q).recalculate m.dropOldRating
        .ok
          { userData := s.userData
            iterationData := s.iterationData
            incomingData := (incomingData.setBuffer
              incomingData.currentBufferIndex s.incomingBuffer).switch
            jobQueue := s.jobQueue }) := by
  obtain ⟨st₁, hst₁, h⟩ := exec_messages (hrested.empty _) m.messages
  refine ⟨st₁.jobQueue, st₁.incomingData, h.errors, ?_, ?_⟩
  · intro i hi
    rw [h.index] at hi
    rw [h.other i hi, hrested.empty]
  · rw [minute, Minute.events, exec_append, hst₁]
    show exec step st₁ [.recalculate m.dropOldRating] = _
    rw [exec_singleton, step, calculator, h.userData, h.iterationData,
      h.current]

theorem or_and_absorb (a b c : Bool) :
    (a || b && c) = (a || (a || b) && c) := by
  cases a <;> rfl

/-- **A minute that completes**: the service is at rest again, and every user
has what the minute makes of him. -/
theorem minute_of_ok (hrested : st.Rested) (hs : st.minute m = .ok st') :
    st'.Rested ∧ ∀ id,
      (st'.userData.userState id).basic =
        m.basic id (st.userData.userState id).basic ∧
      (st'.userData.userState id).isActive =
        ((!m.dropOldRating && (st.userData.userState id).isActive) ||
          ((m.basic id (st.userData.userState id).basic).isSome &&
            decide (m.messages.deals id ≠ []))) := by
  obtain ⟨q, incomingData, -, hother, hminute⟩ := minute_eq (m := m) hrested
  rw [hminute] at hs
  obtain ⟨s', hs', hst'⟩ := bind_eq_ok.mp hs
  cases hst'
  have hsec := dispatchAll_secondsOk m.messages
  have hdisj := hrested.consistent.disjoint
  have hclear := RatingCalculatorImpl.recalculate_incomingBuffer
    (s := .create st.userData st.iterationData (dispatchAll m.messages) q)
    hdisj hsec hs'
  obtain ⟨-, hrecords⟩ := RatingCalculatorImpl.recalculate_of_ok
    (s := .create st.userData st.iterationData (dispatchAll m.messages) q)
    hdisj hsec hs'
  refine ⟨⟨RatingCalculatorImpl.IsConsistent.recalculate
    (s := .create st.userData st.iterationData (dispatchAll m.messages) q)
    hrested.consistent hs', ?_⟩, fun id => ?_⟩
  · rw [hclear]
    exact IncomingDataDoubleBuffer.buffers_cleared hother
  · obtain ⟨hbasic, hactive⟩ := hrecords id
    rw [m.basic_batchState] at hbasic
    refine ⟨hbasic, ?_⟩
    have hbefore := RatingCalculatorImpl.isActive_batchState
      (.create st.userData st.iterationData (dispatchAll m.messages) q)
      m.dropOldRating id
    have hknown := UserState.isRegistered_eq
      ((RatingCalculatorImpl.create st.userData st.iterationData
        (dispatchAll m.messages) q).batchState m.dropOldRating id)
    rw [UserState.isRegistered_eq_isSome, m.basic_batchState] at hknown
    rw [← Dispatches.isSome_dealsWon, hknown]
    refine hactive.trans ?_
    rw [hbefore]
    show _ = ((!m.dropOldRating && (st.userData.userState id).isActive) || _)
    exact or_and_absorb _ _ _

end ServiceState

/-! ## §4  Runs of minutes -/

def allMessages (ms : List (Minute dm)) : Dispatches dm :=
  ms.flatMap Minute.messages

theorem allMessages_concat (ms : List (Minute dm)) (m : Minute dm) :
    allMessages (ms ++ [m]) = allMessages ms ++ m.messages := by
  rw [allMessages, List.flatMap_append, List.flatMap_singleton]
  rfl

namespace ServiceState

def basic (st : ServiceState dm n) (id : IdT) : Option BasicUserData :=
  (st.userData.userState id).basic

/-- **A run of minutes that completes** leaves of a user what one minute after
the other makes of him. -/
theorem minutes_of_ok (ms : List (Minute dm)) {st st' : ServiceState dm n}
    (hrested : st.Rested) (hs : exec minute st ms = .ok st') :
    st'.Rested ∧ ∀ id,
      st'.basic id = ms.foldl (fun b m => m.basic id b) (st.basic id) := by
  induction ms generalizing st with
  | nil =>
      cases hs
      exact ⟨hrested, fun _ => rfl⟩
  | cons m ms ih =>
      obtain ⟨st₁, hm, hs⟩ := exec_cons hs
      obtain ⟨hrested₁, hbasic₁⟩ := minute_of_ok hrested hm
      obtain ⟨hrested', hbasic'⟩ := ih hrested₁ hs
      refine ⟨hrested', fun id => ?_⟩
      rw [hbasic', basic, (hbasic₁ id).1]
      rfl

end ServiceState

end RatingService
