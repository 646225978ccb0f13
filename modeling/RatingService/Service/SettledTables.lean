import RatingService.Service.AnnouncingSession
import RatingService.Service.RatingCapacity

/-!
# Tables between recalculations

What a recalculation that completes keeps of everything the workers and the
announcer rely on, and which pointers it leaves alone: those to the objects of
the active users, unless the rating is dropped.

- §1: names.
- §2: pointers.
- §3: a recalculation.
- §4: the threads' steps.
-/

namespace RatingService

variable {dm : DataModel} {n : ℕ}

/-! ## §1  Names -/

namespace UserState

def NameFits (st : UserState dm) : Prop :=
  ∀ u, st.basic = some u → u.name.length ≤ 255

variable {st : UserState dm} {name : BufferT}

theorem NameFits.dropped (h : st.NameFits) : st.dropped.NameFits := by
  cases st <;> exact h

theorem NameFits.registered (h : st.NameFits) (hname : name.length ≤ 255) :
    (st.registered name).NameFits := by
  cases st with
  | unregistered =>
      rintro u ⟨⟩
      exact hname
  | silent u | active u => exact h

theorem NameFits.renamed (h : st.NameFits) (hname : name.length ≤ 255) :
    (st.renamed name).NameFits := by
  cases st with
  | unregistered => exact h
  | silent u | active u =>
      rintro v ⟨⟩
      exact hname

theorem NameFits.connected (h : st.NameFits) (second : ConnectTimeT) :
    (st.connected second).NameFits := by
  unfold UserState.connected
  split
  · cases st with
    | unregistered => exact h
    | silent u =>
        rintro v ⟨⟩
        exact h u rfl
    | active u =>
        rintro v ⟨⟩
        exact h u.toBasicUserData rfl
  · exact h

end UserState

/-- What a recalculation asks of its batch. -/
structure IncomingDataBuffer.Fits (buffer : IncomingDataBuffer dm) : Prop where
  seconds : buffer.SecondsOk
  registered : ∀ (id : IdT) name, buffer.usersRegistered[id]? = some name →
    name.length ≤ 255
  renamed : ∀ (id : IdT) name, buffer.usersRenamed[id]? = some name →
    name.length ≤ 255

namespace IncomingDataBuffer

theorem fits_empty : ({} : IncomingDataBuffer dm).Fits where
  seconds := secondsOk_empty
  registered := fun id name h => by simp at h
  renamed := fun id name h => by simp at h

variable {buffer batch : IncomingDataBuffer dm}

theorem Fits.record (h : buffer.Fits) (second : Fin 60)
    {msg : ClientMessage dm} (hmsg : msg.NameFits) :
    (buffer.record second msg).Fits := by
  have hinsert : ∀ (names : UserNameMap) (id : IdT) (name : BufferT),
      name.length ≤ 255 →
      (∀ (k : IdT) v, names[k]? = some v → v.length ≤ 255) →
      ∀ (k : IdT) v, (names.insertIfNew id name)[k]? = some v →
        v.length ≤ 255 := by
    intro names id name hname hnames k v hv
    rw [Std.TreeMap.getElem?_insertIfNew] at hv
    split at hv
    · cases hv
      exact hname
    · exact hnames k v hv
  refine ⟨dispatch_secondsOk second _ msg h.seconds, ?_, ?_⟩
  · cases msg with
    | registered reg => exact hinsert _ _ _ hmsg h.registered
    | renamed _ | connected _ | disconnected _ | dealWon _ =>
        exact h.registered
  · cases msg with
    | renamed reg => exact hinsert _ _ _ hmsg h.renamed
    | registered _ | connected _ | disconnected _ | dealWon _ =>
        exact h.renamed

theorem Fits.copy (hbatch : batch.Fits) (hbuffer : buffer.Fits)
    (stage : Stage) : (stage.copy batch buffer).Fits := by
  cases stage with
  | registrations => exact ⟨hbatch.seconds, hbuffer.registered, hbatch.renamed⟩
  | renames => exact ⟨hbatch.seconds, hbatch.registered, hbuffer.renamed⟩
  | connectionChanges =>
      exact ⟨hbuffer.seconds, hbatch.registered, hbatch.renamed⟩
  | deals => exact ⟨hbatch.seconds, hbatch.registered, hbatch.renamed⟩

end IncomingDataBuffer

/-! ## §2  Pointers -/

namespace CoreRatingData

variable {d d' : CoreRatingData dm} {p : UserRef}

theorem Live.sameRecords (h : d.SameRecords d') (hp : d.Live p) :
    d'.Live p := by
  obtain ⟨u, hu, hserial⟩ := hp
  obtain ⟨u', hu', hsame⟩ := h.symm.active hu
  exact ⟨u', hu', (serial_of_unranked hsame).symm.trans hserial⟩

theorem ConnectedAt.live {second : Fin 60} (h : d.ConnectedAt second p) :
    d.Live p := by
  obtain ⟨u, hu, hserial, -⟩ := h
  exact ⟨u, hu, hserial⟩

end CoreRatingData

namespace RatingCalculatorImpl

variable {s s' : RatingCalculatorImpl dm n} {p : UserRef}

theorem live_processDeal {e : IdT × MonetaryT dm} (hp : s.userData.Live p)
    (hs : s.processDeal e = .ok s') : s'.userData.Live p := by
  unfold processDeal at hs
  cases ha : s.userData.activeUsers.lookup e.1 with
  | some u =>
      rw [ha] at hs
      obtain ⟨patches, rfl⟩ := processActiveDeal_of_ok hs
      exact hp
  | none =>
      rw [ha] at hs
      cases hsilent : s.userData.silentUsers.lookup e.1 with
      | some u =>
          rw [hsilent] at hs
          obtain ⟨patches, fresh, rfl⟩ := processSilentDeal_of_ok hs
          obtain ⟨v, hv, hserial⟩ := hp
          -- the new object is another user's
          have hne : p.owner ≠ e.1 := by
            intro heq
            rw [heq, ha] at hv
            cases hv
          exact ⟨v, (UnorderedMap.lookup_emplace_ne _ _ hne).trans hv, hserial⟩
      | none =>
          rw [hsilent] at hs
          cases hs
          exact hp

/-- **Without a drop** a recalculation leaves every object where it is. -/
theorem live_recalculate (hdisj : s.userData.Disjoint)
    (hsec : s.incomingBuffer.SecondsOk) (hp : s.userData.Live p)
    (hs : s.recalculate false = .ok s') : s'.userData.Live p := by
  obtain ⟨s₁, hs₁, hbefore⟩ := beforeDeals_spec false hdisj hsec
  rw [recalculate, prepare_eq, hs₁, ok_bind] at hs
  obtain ⟨s₂, hs₂, hmerge⟩ := bind_eq_ok.mp hs
  have hp₁ : s₁.userData.Live p := by
    rw [CoreRatingData.live_iff_rated, hbefore.rated]
    exact CoreRatingData.live_iff_rated.mp hp
  obtain ⟨s₂', hs₂', hclear⟩ := bind_eq_ok.mp hs₂
  have hp₂ := KeyedFold.foldlM_invariant
    (fun c : RatingCalculatorImpl dm n => c.userData.Live p)
    (fun c e c' h hc => live_processDeal h hc) _ _ _ hp₁ hs₂'
  cases hclear
  obtain ⟨hsame, -, -⟩ := merge_of_ok hmerge
  exact hp₂.sameRecords hsame

/-! ## §3  A recalculation -/

theorem names_recalculate {dropOldRating : Bool}
    (hdisj : s.userData.Disjoint) (hbatch : s.incomingBuffer.Fits)
    (hnames : s.userData.NamesFit)
    (hs : s.recalculate dropOldRating = .ok s') : s'.userData.NamesFit := by
  intro id u hu
  rw [show (s'.userData.userState id).basic = _ from
    ((recalculate_of_ok hdisj hbatch.seconds hs).2 id).1] at hu
  have hstart : (if dropOldRating then (s.userState id).dropped else
      s.userState id).NameFits := by
    have hid : (s.userState id).NameFits := hnames id
    split
    · exact hid.dropped
    · exact hid
  have hregistered : ∀ st : UserState dm, st.NameFits →
      ((s.incomingBuffer.usersRegistered[id]?).elim st
        (st.registered ·)).NameFits := by
    intro st hst
    cases hreg : s.incomingBuffer.usersRegistered[id]? with
    | none => exact hst
    | some name => exact hst.registered (hbatch.registered id name hreg)
  have hrenamed : ∀ st : UserState dm, st.NameFits →
      ((s.incomingBuffer.usersRenamed[id]?).elim st
        (st.renamed ·)).NameFits := by
    intro st hst
    cases hren : s.incomingBuffer.usersRenamed[id]? with
    | none => exact hst
    | some name => exact hst.renamed (hbatch.renamed id name hren)
  have hconnected : ∀ st : UserState dm, st.NameFits →
      ((s.incomingBuffer.connectionChanges[id]?).elim st
        (st.connected ·)).NameFits := by
    intro st hst
    cases s.incomingBuffer.connectionChanges[id]? with
    | none => exact hst
    | some second => exact hst.connected second
  exact hconnected _ (hrenamed _ (hregistered _ hstart)) u hu

end RatingCalculatorImpl

theorem Settled.servable {d : CoreRatingData dm} {it : IterationData}
    (h : Settled d it) : d.Servable :=
  ⟨h.integrity, h.consistent.keyed, h.names, h.size⟩

theorem settled_empty : Settled ({} : CoreRatingData dm) {} where
  consistent := consistent_empty
  integrity := CoreRatingData.ratingIntegrity_nil rfl fun _ => rfl
  names := fun id u h => by cases h
  size := Nat.two_pow_pos 31

/-- **A recalculation** that completes leaves the tables settled. -/
theorem Settled.recalculate {d : CoreRatingData dm} {it : IterationData}
    (h : Settled d it) {batch : IncomingDataBuffer dm} (hbatch : batch.Fits)
    {q : JobQueue n} {dropOldRating : Bool} {c : RatingCalculatorImpl dm n}
    (hc : (RatingCalculatorImpl.create d it batch q).recalculate
      dropOldRating = .ok c) : Settled c.userData c.iterationData := by
  have hsized : (RatingCalculatorImpl.create d it batch q).Sized :=
    ⟨h.integrity, h.consistent.disjoint, hbatch.seconds, rfl, rfl, h.size⟩
  obtain ⟨hranked, hsize⟩ := RatingCalculatorImpl.recalculate_reranked hsized hc
  exact ⟨RatingCalculatorImpl.IsConsistent.recalculate
      (s := .create d it batch q) h.consistent hc, hranked.integrity,
    RatingCalculatorImpl.names_recalculate (s := .create d it batch q)
      h.consistent.disjoint hbatch h.names hc, hsize⟩

/-! ## §4  The threads' steps -/

namespace LiveSession

/-- Nothing has happened to the tables, the errors and the pointers. -/
structure SameData (l l' : LiveSession dm n) : Prop where
  userData : l'.userData = l.userData
  iterationData : l'.iterationData = l.iterationData
  userDataIndex : l'.jobQueue.userDataIndex = l.jobQueue.userDataIndex
  errorIndex : l'.jobQueue.errorIndex = l.jobQueue.errorIndex
  userDataQueue : ∀ w, (l'.jobQueue.queues w).userDataQueue =
    (l.jobQueue.queues w).userDataQueue
  errorQueue : ∀ w, (l'.jobQueue.queues w).errorQueue =
    (l.jobQueue.queues w).errorQueue

variable {l l' : LiveSession dm n} {w : Fin n}

theorem SameData.refl (l : LiveSession dm n) : l.SameData l :=
  ⟨rfl, rfl, rfl, rfl, fun _ => rfl, fun _ => rfl⟩

theorem SameData.dispatch (l : LiveSession dm n) (second : Fin 60)
    (msg : ClientMessage dm) : l.SameData (l.dispatch second msg) := by
  cases msg with
  | connected msg =>
      refine ⟨rfl, rfl, rfl, rfl, fun w => ?_, fun w => ?_⟩
      all_goals
        simp only [LiveSession.dispatch, RatingService.dispatch,
          JobQueue.enqueuePromise]
        by_cases hw : w = l.jobQueue.promiseIndex
        · rw [hw, Function.update_self]
        · rw [Function.update_of_ne hw]
  | registered _ | renamed _ | disconnected _ | dealWon _ =>
      exact ⟨rfl, rfl, rfl, rfl, fun _ => rfl, fun _ => rfl⟩

theorem queues_dequeueUserIdPromise (q : JobQueue n) (w w' : Fin n) :
    ((q.dequeueUserIdPromise w).2.queues w').userDataQueue =
        (q.queues w').userDataQueue ∧
      ((q.dequeueUserIdPromise w).2.queues w').errorQueue =
        (q.queues w').errorQueue ∧
      (q.dequeueUserIdPromise w).2.userDataIndex = q.userDataIndex ∧
      (q.dequeueUserIdPromise w).2.errorIndex = q.errorIndex := by
  unfold JobQueue.dequeueUserIdPromise
  split
  · exact ⟨rfl, rfl, rfl, rfl⟩
  · dsimp only
    by_cases hw : w' = w
    · rw [hw, Function.update_self]
      exact ⟨rfl, rfl, rfl, rfl⟩
    · rw [Function.update_of_ne hw]
      exact ⟨rfl, rfl, rfl, rfl⟩

theorem SameData.drain {action : WorkerAction}
    (hs : l.drain w action = some l') : l.SameData l' := by
  have hqueues := queues_dequeueUserIdPromise l.jobQueue w
  unfold LiveSession.drain at hs
  split at hs
  · dsimp only at hs
    split at hs <;>
      obtain ⟨-, hs⟩ := Option.ite_none_right_eq_some.mp hs <;> cases hs
    all_goals
      exact ⟨rfl, rfl, (hqueues w).2.2.1, (hqueues w).2.2.2,
        fun w => (hqueues w).1, fun w => (hqueues w).2.1⟩
  · cases hs
    exact SameData.refl l

/-- **A step of the threads**, the calculator's apart. -/
theorem step_frame {a : LiveStep dm n} (ha : a.thread ≠ .calculator)
    (hs : l.step a = some l') :
    l.session.step a.thread = some l'.session ∧ l.SameData l' := by
  obtain ⟨session, hsession, hs⟩ := Option.bind_eq_some_iff.mp hs
  obtain ⟨l₁, hwork, hs⟩ := Option.bind_eq_some_iff.mp hs
  cases hs
  refine ⟨hsession, ?_⟩
  have hsame : l.SameData l₁ := by
    unfold LiveSession.work at hwork
    split at hwork
    · cases hwork
      exact SameData.dispatch ..
    · contradiction
    · exact SameData.drain hwork
    · cases hwork
      exact SameData.refl l
  exact ⟨hsame.userData, hsame.iterationData, hsame.userDataIndex,
    hsame.errorIndex, hsame.userDataQueue, hsame.errorQueue⟩

/-- **A step of the calculator** leaves the tables alone, or it is the one that
works the batch in. -/
theorem step_calculator {dropOldRating : Bool}
    (hs : l.step ⟨.calculator, dropOldRating⟩ = some l') :
    l.session.recalculate = some l'.session ∧
      (l.SameData l' ∧ l.reportedErrors = [] ∨
        ∃ taken c, l.session.calculator = .clearing taken .deals ∧
          (RatingCalculatorImpl.create l.userData l.iterationData
            l.session.batch l.jobQueue).recalculate dropOldRating = .ok c ∧
          l' = { l with
            session := l'.session
            userData := c.userData
            iterationData := c.iterationData
            jobQueue := c.jobQueue }) := by
  obtain ⟨session, hsession, hs⟩ := Option.bind_eq_some_iff.mp hs
  obtain ⟨l₁, hwork, hs⟩ := Option.bind_eq_some_iff.mp hs
  cases hs
  refine ⟨hsession, ?_⟩
  replace hwork : l.recalculate dropOldRating = some l₁ := hwork
  unfold LiveSession.recalculate at hwork
  split at hwork
  · next taken hcalc =>
    split at hwork
    · next c hc =>
      cases hwork
      exact .inr ⟨taken, c, hcalc, hc, rfl⟩
    · cases hwork
  · next hcalc =>
    cases hwork
    refine .inl ⟨⟨rfl, rfl, rfl, rfl, fun _ => rfl, fun _ => rfl⟩, ?_⟩
    unfold LiveSession.reportedErrors
    split
    · next taken hbusy => exact absurd hbusy (hcalc taken)
    · rfl

end LiveSession

end RatingService
