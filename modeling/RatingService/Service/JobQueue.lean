import RatingService.Service.CoreData

/-!
# The job queue

`service/job_queue.cpp`: one pack of three queues for every worker, filled
round robin. Each kind of job is enqueued by one thread only (errors and user
data by the announcer's thread, promises by the listener's), so the
`thread_local` round-robin index of each kind is one value. A queue is the
sequence of values pushed and not popped yet.

The type carries what keeps every `m_queues[index]` in bounds: an index is
below the number of packs, so there is at least one pack.
-/

namespace RatingService

abbrev UserIdPromise := IdT × Bool

structure QueuePack where
  errorQueue : List GenericProtocolError := []
  userIdPromiseQueue : List UserIdPromise := []
  userDataQueue : List UserRef := []

structure JobQueue (n : ℕ) where
  queues : Fin n → QueuePack := fun _ => {}
  errorIndex : Fin n
  promiseIndex : Fin n
  userDataIndex : Fin n

namespace JobQueue

variable {n : ℕ}

/-- A fresh queue: every index starts at 0. -/
def create (h : 0 < n) : JobQueue n where
  errorIndex := ⟨0, h⟩
  promiseIndex := ⟨0, h⟩
  userDataIndex := ⟨0, h⟩

/-- `++currentQueueIndex`, back to 0 at the number of packs. -/
def nextIndex (i : Fin n) : Fin n :=
  if h : i.val + 1 = n then ⟨0, by omega⟩ else ⟨i.val + 1, by omega⟩

def enqueueErrorJob (q : JobQueue n) (error : GenericProtocolError) :
    JobQueue n :=
  { q with
    queues := Function.update q.queues q.errorIndex
      { q.queues q.errorIndex with
        errorQueue := (q.queues q.errorIndex).errorQueue ++ [error] }
    errorIndex := nextIndex q.errorIndex }

/-- `enqueueRatingJob (UserIdPromise)`. -/
def enqueuePromise (q : JobQueue n) (promise : UserIdPromise) : JobQueue n :=
  { q with
    queues := Function.update q.queues q.promiseIndex
      { q.queues q.promiseIndex with
        userIdPromiseQueue :=
          (q.queues q.promiseIndex).userIdPromiseQueue ++ [promise] }
    promiseIndex := nextIndex q.promiseIndex }

/-- `enqueueRatingJob (const FullUserData*)`. -/
def enqueueUserData (q : JobQueue n) (userData : UserRef) : JobQueue n :=
  { q with
    queues := Function.update q.queues q.userDataIndex
      { q.queues q.userDataIndex with
        userDataQueue :=
          (q.queues q.userDataIndex).userDataQueue ++ [userData] }
    userDataIndex := nextIndex q.userDataIndex }

/-! What a job does to the queues of its kind. -/

theorem errorQueue_enqueueErrorJob (q : JobQueue n)
    (error : GenericProtocolError) (i : Fin n) :
    ((q.enqueueErrorJob error).queues i).errorQueue =
      if i = q.errorIndex then (q.queues i).errorQueue ++ [error]
      else (q.queues i).errorQueue := by
  dsimp only [enqueueErrorJob]
  split
  · next h => rw [h, Function.update_self]
  · next h => rw [Function.update_of_ne h]

theorem userIdPromiseQueue_enqueuePromise (q : JobQueue n)
    (promise : UserIdPromise) (i : Fin n) :
    ((q.enqueuePromise promise).queues i).userIdPromiseQueue =
      if i = q.promiseIndex then
        (q.queues i).userIdPromiseQueue ++ [promise]
      else (q.queues i).userIdPromiseQueue := by
  dsimp only [enqueuePromise]
  split
  · next h => rw [h, Function.update_self]
  · next h => rw [Function.update_of_ne h]

theorem userDataQueue_enqueueUserData (q : JobQueue n) (userData : UserRef)
    (i : Fin n) :
    ((q.enqueueUserData userData).queues i).userDataQueue =
      if i = q.userDataIndex then (q.queues i).userDataQueue ++ [userData]
      else (q.queues i).userDataQueue := by
  dsimp only [enqueueUserData]
  split
  · next h => rw [h, Function.update_self]
  · next h => rw [Function.update_of_ne h]

theorem errorQueue_enqueuePromise (q : JobQueue n) (promise : UserIdPromise)
    (i : Fin n) :
    ((q.enqueuePromise promise).queues i).errorQueue =
      (q.queues i).errorQueue := by
  dsimp only [enqueuePromise]
  by_cases h : i = q.promiseIndex
  · rw [h, Function.update_self]
  · rw [Function.update_of_ne h]

end JobQueue

/-! The queues of small services, as they start. -/

def oneWorker : JobQueue 1 := .create Nat.one_pos

def twoWorkers : JobQueue 2 := .create Nat.two_pos

end RatingService
