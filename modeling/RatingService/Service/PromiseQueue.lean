import RatingService.Framework.Runs
import RatingService.Service.JobQueue
import RatingService.Service.Announcement

/-!
# Connect requests

The way of a promise: enqueued by the listener's thread, dequeued in the drain
loop of `WorkerPool::doWork`, answered by one frame. An empty queue is reported
by an id that a client may send as well, and the loop stops at it.

- §1: a worker's answer.
- §2: the queues and the drain loops.
- §3: what becomes of the promises of one queue.
- §4: exactly when each is answered.
-/

namespace RatingService

open Runs

variable {dm : DataModel} {n : ℕ}

/-! ## §1  Answers -/

/-- What a worker writes: `processRatingImpl` or `processError`. -/
inductive OutgoingFrame where
  | ratingPack (id : IdT) (rating : ℤ)
  | error (error : GenericProtocolError)
deriving DecidableEq

/-- `processRating` of a promise: whose pack it sends and for which place;
`none` if it returns `false`. -/
def CoreRatingData.processRating (d : CoreRatingData dm)
    (userIdPromise : UserIdPromise) : Option (IdT × ℤ) :=
  match d.activeUsers.lookup userIdPromise.1 with
  | some activeUser => some (activeUser.id, activeUser.rating)
  | none =>
      if (d.silentUsers.lookup userIdPromise.1).isSome ∨
          userIdPromise.2 = true then
        some (userIdPromise.1, toInt d.rating.length)
      else none

def CoreRatingData.answer (d : CoreRatingData dm)
    (userIdPromise : UserIdPromise) : OutgoingFrame :=
  match d.processRating userIdPromise with
  | some (id, rating) => .ratingPack id rating
  | none => .error (.userUnrecognized userIdPromise.1)

/-- `processRating` returns `false` for those who are in neither table and have
no flag. -/
theorem CoreRatingData.processRating_eq_none {d : CoreRatingData dm}
    {promise : UserIdPromise} :
    d.processRating promise = none ↔
      (d.userState promise.1).isRegistered = false ∧ promise.2 = false := by
  rw [processRating, userState]
  cases d.activeUsers.lookup promise.1 with
  | some u => simp [UserState.isRegistered]
  | none =>
      cases d.silentUsers.lookup promise.1 <;>
        simp [UserState.isRegistered]

/-- Tables in which an active user's record has his id. -/
structure KeyedData (dm : DataModel) where
  tables : CoreRatingData dm := {}
  keyed : ∀ id u, tables.activeUsers.lookup id = some u → u.id = id

def Consistent.keyedData {d : CoreRatingData dm} {it : IterationData}
    (h : Consistent d it) : KeyedData dm :=
  ⟨d, h.keyed⟩

/-- **The right answer**: a pack for the user if he is known or has the flag,
else the error. -/
def RightAnswer (promise : UserIdPromise)
    (answer : KeyedData dm × OutgoingFrame) : Prop :=
  if (answer.1.tables.userState promise.1).isRegistered ∨ promise.2 = true then
    ∃ rating, answer.2 = .ratingPack promise.1 rating
  else answer.2 = .error (.userUnrecognized promise.1)

theorem KeyedData.rightAnswer (d : KeyedData dm) (promise : UserIdPromise) :
    RightAnswer promise (d, d.tables.answer promise) := by
  rw [RightAnswer, CoreRatingData.answer]
  by_cases hknown :
      (d.tables.userState promise.1).isRegistered ∨ promise.2 = true
  · rw [if_pos hknown]
    cases h : d.tables.processRating promise with
    | none =>
        obtain ⟨hstate, hflag⟩ := CoreRatingData.processRating_eq_none.mp h
        rw [hstate, hflag] at hknown
        rcases hknown with hknown | hknown <;> cases hknown
    | some place =>
        obtain ⟨id, rating⟩ := place
        rw [CoreRatingData.processRating] at h
        cases hactive : d.tables.activeUsers.lookup promise.1 with
        | some u =>
            rw [hactive] at h
            cases h
            exact ⟨u.rating, by rw [← d.keyed _ u hactive]⟩
        | none =>
            rw [hactive] at h
            obtain ⟨-, h⟩ := Option.ite_none_right_eq_some.mp h
            cases h
            exact ⟨_, rfl⟩
  · rw [if_neg hknown]
    rw [not_or, Bool.not_eq_true, Bool.not_eq_true] at hknown
    rw [CoreRatingData.processRating_eq_none.mpr hknown]

/-! ## §2  The drain loops -/

/-- `dequeueUserIdPromise`; what it returns for an empty queue is
`invalidRating`, converted to an id. -/
def JobQueue.dequeueUserIdPromise (q : JobQueue n) (w : Fin n) :
    UserIdPromise × JobQueue n :=
  match (q.queues w).userIdPromiseQueue with
  | [] => ((Int32.ofInt invalidRating, false), q)
  | userId :: rest =>
      (userId, { q with
        queues := Function.update q.queues w
          { q.queues w with userIdPromiseQueue := rest } })

theorem JobQueue.userIdPromiseQueue_dequeue (q : JobQueue n) (w w' : Fin n) :
    ((q.dequeueUserIdPromise w).2.queues w').userIdPromiseQueue =
      if w' = w then (q.queues w).userIdPromiseQueue.tail
      else (q.queues w').userIdPromiseQueue := by
  rw [dequeueUserIdPromise]
  split
  · next hqueue =>
    split
    · next hw => rw [hw, hqueue, List.tail_nil]
    · rfl
  · next hqueue =>
    dsimp only
    split
    · next hw => rw [hw, hqueue, Function.update_self, List.tail_cons]
    · next hw => rw [Function.update_of_ne hw]

inductive DrainPc where
  /-- outside of the loop -/
  | elsewhere
  /-- at the loop's condition -/
  | dequeuing
  /-- in the loop's body -/
  | answering (userIdPromise : UserIdPromise)

def DrainPc.inHand : DrainPc → List UserIdPromise
  | .elsewhere => []
  | .dequeuing => []
  | .answering userIdPromise => [userIdPromise]

structure PromiseService (dm : DataModel) (n : ℕ) where
  jobQueue : JobQueue n
  coreData : KeyedData dm
  workers : Fin n → DrainPc := fun _ => .elsewhere
  /-- a ghost: what was enqueued, and where it landed -/
  requests : List (Fin n × UserIdPromise) := []
  /-- a ghost: the frames of each worker, with the tables he looked into -/
  sent : Fin n → List (KeyedData dm × OutgoingFrame) := fun _ => []

inductive PromiseStep (dm : DataModel) (n : ℕ) where
  | enqueueRatingJob (userIdPromise : UserIdPromise)
  /-- a recalculation -/
  | refresh (coreData : KeyedData dm)
  /-- a worker gets to the loop -/
  | enter (w : Fin n)
  /-- the loop's condition -/
  | dequeue (w : Fin n)
  /-- the loop's body -/
  | answer (w : Fin n)

namespace PromiseService

def atPc (s : PromiseService dm n) (w : Fin n) (pc : DrainPc) :
    PromiseService dm n :=
  { s with workers := Function.update s.workers w pc }

def step (s : PromiseService dm n) :
    PromiseStep dm n → Option (PromiseService dm n)
  | .enqueueRatingJob promise => some { s with
      jobQueue := s.jobQueue.enqueuePromise promise
      requests := s.requests ++ [(s.jobQueue.promiseIndex, promise)] }
  | .refresh coreData => some { s with coreData }
  | .enter w =>
      match s.workers w with
      | .elsewhere => some (s.atPc w .dequeuing)
      | _ => none
  | .dequeue w =>
      match s.workers w with
      | .dequeuing =>
          let (promise, jobQueue) := s.jobQueue.dequeueUserIdPromise w
          some ({ s with jobQueue }.atPc w
            (if promise.1 ≠ invalidId then .answering promise else .elsewhere))
      | _ => none
  | .answer w =>
      match s.workers w with
      | .answering promise => some ({ s with
          sent := Function.update s.sent w (s.sent w ++
            [(s.coreData, s.coreData.tables.answer promise)]) }.atPc w
          .dequeuing)
      | _ => none

def machine (dm : DataModel) (n : ℕ) :
    Machine (PromiseService dm n) (PromiseStep dm n) where
  init s := ∃ (h : 0 < n) (coreData : KeyedData dm),
    s = { jobQueue := .create h, coreData }
  step := step

/-! ## §3  One queue -/

def landed (s : PromiseService dm n) (w : Fin n) : List UserIdPromise :=
  (s.requests.filter fun request => request.1 = w).map Prod.snd

/-- **The account of a queue**: what landed there was dequeued, or is there
still; what was dequeued was answered, or is in the worker's hand, unless it
had the id that means an empty queue. -/
structure Accounted (s : PromiseService dm n) (w : Fin n)
    (dequeued answered : List UserIdPromise) : Prop where
  landed : s.landed w = dequeued ++ (s.jobQueue.queues w).userIdPromiseQueue
  taken : dequeued.filter (fun promise => promise.1 ≠ invalidId) =
    answered ++ (s.workers w).inHand
  answers : List.Forall₂ RightAnswer answered (s.sent w)

variable {s s' : PromiseService dm n} {w w' : Fin n}
  {dequeued answered : List UserIdPromise}

theorem Accounted.frame (h : s.Accounted w dequeued answered)
    (hlanded : s'.landed w = s.landed w)
    (hqueue : (s'.jobQueue.queues w).userIdPromiseQueue =
      (s.jobQueue.queues w).userIdPromiseQueue)
    (hhand : (s'.workers w).inHand = (s.workers w).inHand)
    (hsent : s'.sent w = s.sent w) : s'.Accounted w dequeued answered where
  landed := by rw [hlanded, hqueue, h.landed]
  taken := by rw [hhand, h.taken]
  answers := by rw [hsent]; exact h.answers

theorem Accounted.enqueue (h : s.Accounted w dequeued answered)
    {promise : UserIdPromise}
    (hs : s.step (.enqueueRatingJob promise) = some s') :
    s'.Accounted w dequeued answered := by
  cases hs
  refine ⟨?_, h.taken, h.answers⟩
  have hold := h.landed
  rw [PromiseService.landed] at hold ⊢
  dsimp only
  rw [JobQueue.userIdPromiseQueue_enqueuePromise, List.filter_append,
    List.map_append, hold]
  by_cases hw : w = s.jobQueue.promiseIndex
  · subst hw
    simp
  · simp [hw, Ne.symm hw]

theorem Accounted.dequeue (h : s.Accounted w dequeued answered)
    (hs : s.step (.dequeue w) = some s') :
    ∃ dequeued', s'.Accounted w dequeued' answered := by
  obtain ⟨hlanded, htaken, hanswers⟩ := h
  cases hpc : s.workers w
  all_goals simp only [step, hpc, reduceCtorEq] at hs
  rw [hpc, DrainPc.inHand, List.append_nil] at htaken
  cases hs
  cases hqueue : (s.jobQueue.queues w).userIdPromiseQueue with
  | nil =>
      rw [hqueue] at hlanded
      refine ⟨dequeued, ?_, ?_, hanswers⟩
      · simp only [JobQueue.dequeueUserIdPromise, hqueue, atPc]
        exact hlanded
      · -- `invalidRating` is the invalid id
        simp only [JobQueue.dequeueUserIdPromise, hqueue, atPc,
          Function.update_self]
        rw [if_neg (by decide), DrainPc.inHand, List.append_nil]
        exact htaken
  | cons promise rest =>
      rw [hqueue] at hlanded
      refine ⟨dequeued ++ [promise], ?_, ?_, hanswers⟩
      · simp only [JobQueue.dequeueUserIdPromise, hqueue, atPc,
          Function.update_self]
        rw [List.append_assoc]
        exact hlanded
      · simp only [JobQueue.dequeueUserIdPromise, hqueue, atPc,
          Function.update_self]
        rw [List.filter_append, htaken]
        by_cases hid : promise.1 = invalidId <;>
          simp [hid, DrainPc.inHand]

theorem Accounted.answer (h : s.Accounted w dequeued answered)
    (hs : s.step (.answer w) = some s') :
    ∃ answered', s'.Accounted w dequeued answered' := by
  obtain ⟨hlanded, htaken, hanswers⟩ := h
  cases hpc : s.workers w
  all_goals simp only [step, hpc, reduceCtorEq] at hs
  case answering promise =>
    rw [hpc, DrainPc.inHand] at htaken
    cases hs
    refine ⟨answered ++ [promise], hlanded, ?_, ?_⟩
    · simp only [atPc, Function.update_self]
      rw [DrainPc.inHand, List.append_nil]
      exact htaken
    · simp only [atPc, Function.update_self]
      exact List.rel_append hanswers
        (.cons (s.coreData.rightAnswer promise) .nil)

theorem Accounted.other (h : s.Accounted w dequeued answered) (hne : w ≠ w')
    (hs : s.step (.enter w') = some s' ∨ s.step (.dequeue w') = some s' ∨
      s.step (.answer w') = some s') : s'.Accounted w dequeued answered := by
  rcases hs with hs | hs | hs
  all_goals
    cases hpc : s.workers w'
    all_goals simp only [step, hpc, reduceCtorEq] at hs
    cases hs
    refine h.frame rfl ?_ ?_ ?_
  all_goals simp only [atPc, Function.update_of_ne hne]
  rw [JobQueue.userIdPromiseQueue_dequeue, if_neg hne]

/-- **One step** keeps the accounts. -/
theorem Accounted.step {a : PromiseStep dm n}
    (h : s.Accounted w dequeued answered) (hs : s.step a = some s') :
    ∃ dequeued' answered', s'.Accounted w dequeued' answered' := by
  cases a with
  | enqueueRatingJob promise => exact ⟨_, _, h.enqueue hs⟩
  | refresh coreData =>
      cases hs
      exact ⟨_, _, h.frame rfl rfl rfl rfl⟩
  | enter w' =>
      by_cases hw : w = w'
      · subst hw
        cases hpc : s.workers w
        all_goals simp only [PromiseService.step, hpc, reduceCtorEq] at hs
        cases hs
        refine ⟨_, _, h.frame rfl rfl ?_ rfl⟩
        simp only [atPc, Function.update_self, hpc]
        rfl
      · exact ⟨_, _, h.other hw (.inl hs)⟩
  | dequeue w' =>
      by_cases hw : w = w'
      · subst hw
        obtain ⟨dequeued', h'⟩ := h.dequeue hs
        exact ⟨dequeued', _, h'⟩
      · exact ⟨_, _, h.other hw (.inr (.inl hs))⟩
  | answer w' =>
      by_cases hw : w = w'
      · subst hw
        obtain ⟨answered', h'⟩ := h.answer hs
        exact ⟨_, answered', h'⟩
      · exact ⟨_, _, h.other hw (.inr (.inr hs))⟩

theorem accounted {steps : List (PromiseStep dm n)}
    (hrun : (machine dm n).Run (fun _ _ => True) steps s) (w : Fin n) :
    ∃ dequeued answered, s.Accounted w dequeued answered := by
  induction hrun with
  | init h =>
      obtain ⟨_, _, rfl⟩ := h
      exact ⟨[], [], rfl, rfl, .nil⟩
  | step _ _ hs ih =>
      obtain ⟨_, _, h⟩ := ih
      exact h.step hs

/-! ## §4  Every promise -/

def requested (steps : List (PromiseStep dm n)) : List UserIdPromise :=
  steps.filterMap fun
    | .enqueueRatingJob promise => some promise
    | _ => none

theorem requests_map_snd {steps : List (PromiseStep dm n)}
    (hrun : (machine dm n).Run (fun _ _ => True) steps s) :
    s.requests.map Prod.snd = requested steps := by
  induction hrun with
  | init h =>
      obtain ⟨_, _, rfl⟩ := h
      rfl
  | @step steps s s' a _ _ hs ih =>
      rw [requested, List.filterMap_append, ← requested, ← ih]
      replace hs : s.step a = some s' := hs
      cases a with
      | enqueueRatingJob promise =>
          cases hs
          exact List.map_append
      | refresh coreData =>
          cases hs
          exact (List.append_nil _).symm
      | enter w | dequeue w | answer w =>
          cases hpc : s.workers w
          all_goals simp only [PromiseService.step, hpc, reduceCtorEq] at hs
          cases hs
          exact (List.append_nil _).symm

def Emptied (s : PromiseService dm n) : Prop :=
  ∀ w, (s.jobQueue.queues w).userIdPromiseQueue = [] ∧
    (s.workers w).inHand = []

/-- Each worker has sent the right answers to the promises that landed with
him, one for each, in their order. -/
def ServedOnce (s : PromiseService dm n) : Prop :=
  ∀ w, List.Forall₂ RightAnswer (s.landed w) (s.sent w)

/-- Once the queues are empty, a worker has answered the promises he got but
those whose id stands for an empty queue. -/
theorem Emptied.answers {steps : List (PromiseStep dm n)}
    (hrun : (machine dm n).Run (fun _ _ => True) steps s)
    (hempty : s.Emptied) (w : Fin n) :
    List.Forall₂ RightAnswer
      ((s.landed w).filter fun p => p.1 ≠ invalidId) (s.sent w) := by
  obtain ⟨dequeued, answered, h⟩ := accounted hrun w
  obtain ⟨hqueue, hhand⟩ := hempty w
  have hall := h.landed
  have htaken := h.taken
  rw [hqueue, List.append_nil] at hall
  rw [hhand, List.append_nil, ← hall] at htaken
  rw [htaken]
  exact h.answers

/-- **Exactly when every connect request is served once**: when the queues are
empty, each promise has led to one frame, the right one, and in order, if and
only if no request had the id that stands for an empty queue. -/
theorem servedOnce_iff {steps : List (PromiseStep dm n)}
    (hrun : (machine dm n).Run (fun _ _ => True) steps s)
    (hempty : s.Emptied) :
    s.ServedOnce ↔ ∀ promise ∈ requested steps, promise.1 ≠ invalidId := by
  rw [← requests_map_snd hrun]
  have hlanded : ∀ w promise, promise ∈ s.landed w ↔
      (w, promise) ∈ s.requests := by
    intro w promise
    simp [landed]
  constructor
  · -- a promise that is not answered leaves its worker a frame short
    intro hserved promise hpromise hid
    obtain ⟨⟨w, _⟩, hrequest, rfl⟩ := List.mem_map.mp hpromise
    have hlength : ((s.landed w).filter fun p => p.1 ≠ invalidId).length =
        (s.landed w).length := by
      rw [(hempty.answers hrun w).length_eq, (hserved w).length_eq]
    have hkept := List.length_filter_eq_length_iff.mp hlength _
      ((hlanded w _).mpr hrequest)
    exact (of_decide_eq_true hkept) hid
  · intro hvalid w
    have hanswers := hempty.answers hrun w
    rw [List.filter_eq_self.mpr] at hanswers
    · exact hanswers
    · intro promise hpromise
      exact decide_eq_true (hvalid promise
        (List.mem_map.mpr ⟨_, (hlanded w promise).mp hpromise, rfl⟩))

/-! ### Two workers, five requests -/

def oneSilent (id : IdT) : KeyedData .lp64 where
  tables := { silentUsers := UnorderedMap.emplace ∅ id {} }
  keyed := by
    intro id' u hu
    cases hu

def idle : PromiseService .lp64 2 :=
  { jobQueue := twoWorkers, coreData := consistent_empty.keyedData }

theorem init_idle : (machine .lp64 2).init idle :=
  ⟨Nat.two_pos, _, rfl⟩

def drains (w : Fin 2) (k : ℕ) : List (PromiseStep .lp64 2) :=
  .enter w :: (List.replicate k [.dequeue w, .answer w]).flatten ++ [.dequeue w]

/-- Worker 0 gets 7, 9 and 7 again, worker 1 gets 8 and 10; a recalculation
makes 7 known between the answers. -/
def fiveRequests : List (PromiseStep .lp64 2) :=
  ([(7, false), (8, false), (9, true)].map .enqueueRatingJob) ++
    [.enter 0, .dequeue 0] ++ drains 1 1 ++
    ([(10, false), (7, false)].map .enqueueRatingJob) ++
    [.answer 0, .dequeue 0, .answer 0, .refresh (oneSilent 7), .dequeue 0,
      .answer 0, .dequeue 0] ++ drains 1 1

theorem fiveRequests_frames :
    ((machine .lp64 2).schedule idle fiveRequests).map
        (fun s => (s.sent 0).map Prod.snd) =
      some [.error (.userUnrecognized 7), .ratingPack 9 0,
        .ratingPack 7 0] := by
  decide +kernel

theorem fiveRequests_served :
    ∃ s, (machine .lp64 2).schedule idle fiveRequests = some s ∧
      s.ServedOnce ∧
      (s.sent 0).map Prod.snd = [.error (.userUnrecognized 7),
        .ratingPack 9 0, .ratingPack 7 0] := by
  obtain ⟨s, hs, hframes⟩ := Option.map_eq_some_iff.mp fiveRequests_frames
  refine ⟨s, hs, (servedOnce_iff (Machine.run_of_schedule _ init_idle
    (Machine.along_true _ _) hs) ?_).mpr ?_, hframes⟩
  · cases hs
    exact Fin.forall_fin_two.mpr ⟨⟨rfl, rfl⟩, rfl, rfl⟩
  · have hall : (requested fiveRequests).all
        fun promise => promise.1 ≠ invalidId := by
      decide
    intro promise hpromise
    exact of_decide_eq_true (List.all_eq_true.mp hall promise hpromise)

/-- The worker takes the id -1 for an empty queue and answers nothing. -/
theorem oneRequest_dropped :
    ∃ s, (machine .lp64 2).Reachable s ∧ s.Emptied ∧
      s.requests = [(0, (-1, false))] ∧ s.sent 0 = [] ∧ ¬ s.ServedOnce := by
  refine ⟨_, Machine.reachable_of_schedule
    [.enqueueRatingJob (-1, false), .enter 0, .dequeue 0] init_idle rfl,
    ?_, rfl, rfl, ?_⟩
  · exact Fin.forall_fin_two.mpr ⟨⟨rfl, rfl⟩, rfl, rfl⟩
  · intro hserved
    exact absurd (hserved 0).length_eq (by decide)

end PromiseService

end RatingService
