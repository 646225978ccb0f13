import RatingService.Framework.Handover
import RatingService.Framework.Runs
import RatingService.Service.MessageDispatcher

/-!
# A session

The threads of one session: the listener (`Overseer::run` from the claim of
the first incoming buffer on), the announcer's thread in
`RatingCalculator::recalculate`, and the workers (`WorkerPool::doWork`). Every
access to an atomic, every operation on the mutex and on the condition
variable is one step, and steps of different threads interleave.

What is announced and what the job queues hold decides nothing here: a step's
label says whether a queue had a job, which message was built, and whether
the code that may throw did.

- §1: what the threads share.
- §2: a worker.
- §3: the session's state.
- §4: the calculator.
- §5: the listener.
- §6: the machine.
- §7: pieces of schedules with one worker.
-/

namespace RatingService

open Runs

/-! ## §1  Shared state -/

/-- `CoreDataSyncBlock`. Who holds the lock is clear from where the threads
are. -/
structure CoreDataSyncBlock where
  /-- `dataLock` is held -/
  locked : Bool := false
  refreshInProgress : Bool := false
  dataReaderCount : ℤ := 0
  /-- `stopSignals.badFlag` -/
  badFlag : Bool := false
deriving DecidableEq

/-- The maps of an `IncomingDataBuffer`, in the order
`RatingCalculatorImpl::recalculate` goes through them. -/
inductive Stage where
  | registrations
  | renames
  | connectionChanges
  | deals
deriving DecidableEq

namespace Stage

def next : Stage → Option Stage
  | .registrations => some .renames
  | .renames => some .connectionChanges
  | .connectionChanges => some .deals
  | .deals => none

variable {dm : DataModel}

/-- `batch` with the stage's map as it is in `buffer`. -/
def copy (batch buffer : IncomingDataBuffer dm) :
    Stage → IncomingDataBuffer dm
  | .registrations => { batch with usersRegistered := buffer.usersRegistered }
  | .renames => { batch with usersRenamed := buffer.usersRenamed }
  | .connectionChanges =>
      { batch with connectionChanges := buffer.connectionChanges }
  | .deals => { batch with dealsWon := buffer.dealsWon }

/-- The `clear` at the end of a stage. -/
def clear (buffer : IncomingDataBuffer dm) (stage : Stage) :
    IncomingDataBuffer dm :=
  stage.copy buffer {}

end Stage

/-! ## §2  A worker -/

/-- Where a worker is in `doWork`. -/
inductive WorkerPc where
  | notLaunched
  /-- up to the end of the first `cacheTopRatings` -/
  | starting
  /-- at the loop's check of `badFlag` -/
  | checkingFlag
  | checkingRefresh
  /-- in `depleteUserDataMessages`, before the wait -/
  | depleting
  | locking
  /-- at the decrement before the wait -/
  | leavingData
  /-- in the wait, about to evaluate its predicate -/
  | testing
  /-- in the wait, blocked -/
  | waiting
  /-- in the wait, woken up -/
  | relocking
  | unlocking
  /-- at the increment after the wait -/
  | returningToData
  /-- in the `cacheTopRatings` after the wait -/
  | caching
  | errors
  | promises
  /-- in `depleteUserDataMessages`, at the end of the loop's body -/
  | userData
  /-- in a `catch`, about to signal the error -/
  | caught
  /-- in a `catch`, at the decrement -/
  | withdrawing
  /-- left by an exception -/
  | failed
  /-- left by the loop's `break` -/
  | stopped
deriving DecidableEq

/-- What decides a worker's step besides the shared state: a queue that is
being emptied may have one more job, and the work on it may throw. -/
inductive WorkerAction where
  | proceed
  | job
  | throws
deriving DecidableEq

namespace WorkerPc

/-- In code that reads the core data. -/
def Reading : WorkerPc → Prop
  | .starting | .depleting | .caching | .promises | .userData => True
  | _ => False

/-- The wait is over and the reader count not yet incremented again. -/
def Returning : WorkerPc → Prop
  | .unlocking | .returningToData => True
  | _ => False

instance : DecidablePred Returning := fun pc => by
  cases pc <;> unfold Returning <;> infer_instance

end WorkerPc

/-- `WorkerPool::doWork`, one step. A wait may end at any moment, as it may
for `std::condition_variable`: then the predicate is evaluated again. -/
def doWork (sync : CoreDataSyncBlock) :
    WorkerPc → WorkerAction → Option (CoreDataSyncBlock × WorkerPc)
  | .starting, .proceed => some (sync, .checkingFlag)
  | .checkingFlag, .proceed =>
      some (sync, if sync.badFlag then .stopped else .checkingRefresh)
  | .checkingRefresh, .proceed =>
      some (sync, if sync.refreshInProgress then .depleting else .errors)
  | .depleting, .proceed => some (sync, .locking)
  | .locking, .proceed =>
      if sync.locked then none
      else some ({ sync with locked := true }, .leavingData)
  | .leavingData, .proceed =>
      some ({ sync with dataReaderCount := sync.dataReaderCount - 1 }, .testing)
  | .testing, .proceed =>
      if sync.refreshInProgress then
        some ({ sync with locked := false }, .waiting)
      else some (sync, .unlocking)
  | .waiting, .proceed => some (sync, .relocking)
  | .relocking, .proceed =>
      if sync.locked then none
      else some ({ sync with locked := true }, .testing)
  | .unlocking, .proceed =>
      some ({ sync with locked := false }, .returningToData)
  | .returningToData, .proceed =>
      some ({ sync with dataReaderCount := sync.dataReaderCount + 1 }, .caching)
  | .caching, .proceed => some (sync, .errors)
  | .errors, .proceed => some (sync, .promises)
  | .promises, .proceed => some (sync, .userData)
  | .userData, .proceed => some (sync, .checkingFlag)
  | .caught, .proceed => some ({ sync with badFlag := true }, .withdrawing)
  | .withdrawing, .proceed =>
      some ({ sync with dataReaderCount := sync.dataReaderCount - 1 }, .failed)
  | .depleting, .job => some (sync, .depleting)
  | .errors, .job => some (sync, .errors)
  | .promises, .job => some (sync, .promises)
  | .userData, .job => some (sync, .userData)
  | .starting, .throws => some (sync, .caught)
  | .depleting, .throws => some (sync, .caught)
  | .caching, .throws => some (sync, .caught)
  | .errors, .throws => some (sync, .caught)
  | .promises, .throws => some (sync, .caught)
  | .userData, .throws => some (sync, .caught)
  | _, _ => none

/-! ## §3  The state -/

/-- Where the announcer's thread is: between two recalculations, or in
`RatingCalculator::recalculate`, working on one of the buffers. -/
inductive CalculatorPc where
  | notStarted
  | announcing
  /-- the buffers are exchanged -/
  | exchanged (taken : Fin 2)
  | awaitingWriters (taken : Fin 2)
  | awaitingReaders (taken : Fin 2)
  /-- at the loop over a stage's map -/
  | reading (taken : Fin 2) (stage : Stage)
  /-- at the end of a stage -/
  | clearing (taken : Fin 2) (stage : Stage)
  | locking
  | resettingFlag
  | unlocking
  | notifying
  | stopped
deriving DecidableEq

/-- Where the listener is in `Overseer::run`. -/
inductive ListenerPc where
  /-- at the first load of `currentBuffer` -/
  | claiming
  /-- at the first increment -/
  | claimed
  | startingAnnouncer
  | storingReaders
  | launching (next : ℕ)
  /-- at the loop's check of `badFlag` -/
  | checkingFlag
  | building
  | loadingBuffer
  /-- at the decrement of the old buffer's count -/
  | releasing (newBuffer : Fin 2)
  /-- at the increment of the new buffer's count -/
  | claimingNew (newBuffer : Fin 2)
  | settingBuffer
  | dispatching
  /-- in a `catch`, at the decrement -/
  | withdrawing
  | signalling
  /-- behind the `try` block, by a `catch` -/
  | errorHandled
  /-- behind the `try` block, by the end of the loop -/
  | loopEnded
deriving DecidableEq

structure Listener where
  pc : ListenerPc := .claiming
  /-- read only after the first load -/
  inData : Fin 2 := 0
  /-- `MessageDispatcher::m_buffer` -/
  dispatcherBuffer : Fin 2 := 0
deriving DecidableEq

/-- What happens to the buffers: a message is dispatched into one, or the
calculator's wait for one is over. -/
abbrev SessionEvent (dm : DataModel) :=
  Handover.Event (Fin 2) (Fin 60 × ClientMessage dm)

structure Session (dm : DataModel) (n : ℕ) where
  sync : CoreDataSyncBlock := {}
  incomingData : IncomingDataDoubleBuffer dm := {}
  bufferWriterCount : Fin 2 → ℤ := fun _ => 0
  listener : Listener := {}
  calculator : CalculatorPc := .notStarted
  workers : Fin n → WorkerPc := fun _ => .notLaunched
  /-- what the recalculation under way has read of its buffer -/
  batch : IncomingDataBuffer dm := {}
  /-- a ghost: what the finished recalculations have read -/
  batches : List (IncomingDataBuffer dm) := []
  /-- a ghost -/
  log : List (SessionEvent dm) := []

variable {dm : DataModel} {n : ℕ}

namespace Session

def buffer (s : Session dm n) (i : Fin 2) : IncomingDataBuffer dm :=
  s.incomingData.buffers i

def addWriter (s : Session dm n) (i : Fin 2) (change : ℤ) : Session dm n :=
  { s with bufferWriterCount :=
      Function.update s.bufferWriterCount i (s.bufferWriterCount i + change) }

/-! ## §4  The calculator -/

/-- `RatingCalculator::recalculate`, one step; a spin that goes on changes
nothing. The first step is the announcer's call. -/
def recalculate (s : Session dm n) : Option (Session dm n) :=
  match s.calculator with
  | .announcing => some { s with
      incomingData := s.incomingData.switch
      calculator := .exchanged s.incomingData.currentBufferIndex }
  | .exchanged taken => some { s with
      sync := { s.sync with refreshInProgress := true }
      calculator := .awaitingWriters taken }
  | .awaitingWriters taken =>
      if s.bufferWriterCount taken ≠ 0 then some s
      else some { s with
        calculator := .awaitingReaders taken
        log := s.log ++ [.take taken] }
  | .awaitingReaders taken =>
      if s.sync.dataReaderCount ≠ 0 then some s
      else some { s with
        calculator := .reading taken .registrations, batch := {} }
  | .reading taken stage => some { s with
      batch := stage.copy s.batch (s.buffer taken)
      calculator := .clearing taken stage }
  | .clearing taken stage =>
      let s := { s with incomingData :=
        (s.incomingData.setBuffer taken (stage.clear (s.buffer taken))) }
      match stage.next with
      | some stage => some { s with calculator := .reading taken stage }
      | none => some { s with
          calculator := .locking, batches := s.batches ++ [s.batch] }
  | .locking =>
      if s.sync.locked then none
      else some { s with
        sync := { s.sync with locked := true }, calculator := .resettingFlag }
  | .resettingFlag => some { s with
      sync := { s.sync with refreshInProgress := false }
      calculator := .unlocking }
  | .unlocking => some { s with
      sync := { s.sync with locked := false }, calculator := .notifying }
  | .notifying => some { s with calculator := .announcing }
  | .notStarted => none
  | .stopped => none

/-! ## §5  The listener -/

def atPc (s : Session dm n) (pc : ListenerPc) : Session dm n :=
  { s with listener := { s.listener with pc := pc } }

/-- `Overseer::run`, one step that does not throw; `dispatch` is a step of its
own. -/
def run (s : Session dm n) : Option (Session dm n) :=
  match s.listener.pc with
  | .claiming => some { s with listener := { s.listener with
      pc := .claimed, inData := s.incomingData.currentBufferIndex } }
  | .claimed => some ((s.addWriter s.listener.inData 1).atPc .startingAnnouncer)
  | .startingAnnouncer => some
      ({ s with calculator := .announcing }.atPc .storingReaders)
  | .storingReaders => some
      ({ s with sync := { s.sync with dataReaderCount := n } }.atPc
        (.launching 0))
  | .launching i =>
      if h : i < n then some
        ({ s with workers := Function.update s.workers ⟨i, h⟩ .starting }.atPc
          (.launching (i + 1)))
      else some (s.atPc .checkingFlag)
  | .checkingFlag =>
      some (s.atPc (if s.sync.badFlag then .loopEnded else .building))
  | .building => some (s.atPc .loadingBuffer)
  | .loadingBuffer =>
      if s.incomingData.currentBufferIndex ≠ s.listener.inData then
        some (s.atPc (.releasing s.incomingData.currentBufferIndex))
      else some (s.atPc .dispatching)
  | .releasing newBuffer =>
      some ((s.addWriter s.listener.inData (-1)).atPc (.claimingNew newBuffer))
  | .claimingNew newBuffer => some { s.addWriter newBuffer 1 with
      listener := { s.listener with pc := .settingBuffer, inData := newBuffer } }
  | .settingBuffer => some { s with listener := { s.listener with
      pc := .dispatching, dispatcherBuffer := s.listener.inData } }
  | .withdrawing => some ((s.addWriter s.listener.inData (-1)).atPc .signalling)
  | .signalling => some
      ({ s with sync := { s.sync with badFlag := true } }.atPc .errorHandled)
  | .dispatching => none
  | .errorHandled => none
  | .loopEnded => none

/-- The listener's steps that may end in a `catch` after the claim. -/
def MayThrow : ListenerPc → Prop
  | .startingAnnouncer | .launching _ | .building | .dispatching => True
  | _ => False

instance : DecidablePred MayThrow := fun pc => by
  cases pc <;> unfold MayThrow <;> infer_instance

/-- One of `MessageDispatcher::dispatch`. -/
def dispatch (s : Session dm n) (second : Fin 60) (msg : ClientMessage dm) :
    Option (Session dm n) :=
  if s.listener.pc = .dispatching then
    some ({ s with
      incomingData := s.incomingData.setBuffer s.listener.dispatcherBuffer
        ((s.buffer s.listener.dispatcherBuffer).record second msg)
      log := s.log ++
        [Handover.Event.put s.listener.dispatcherBuffer (second, msg)] }.atPc
      .checkingFlag)
  else none

end Session

/-! ## §6  The machine -/

inductive SessionStep (dm : DataModel) (n : ℕ) where
  | listener
  | dispatch (second : Fin 60) (msg : ClientMessage dm)
  | listenerThrows
  | calculator
  /-- the announcer finds `badFlag` set between two recalculations -/
  | announcerStops
  | worker (w : Fin n) (action : WorkerAction)
  /-- a `signalError` from anywhere else -/
  | signalError

namespace Session

def step (s : Session dm n) : SessionStep dm n → Option (Session dm n)
  | .listener => s.run
  | .dispatch second msg => s.dispatch second msg
  | .listenerThrows =>
      if MayThrow s.listener.pc then some (s.atPc .withdrawing) else none
  | .calculator => s.recalculate
  | .announcerStops =>
      if s.calculator = .announcing ∧ s.sync.badFlag then
        some { s with calculator := .stopped }
      else none
  | .worker w action =>
      (doWork s.sync (s.workers w) action).map fun (sync, pc) =>
        { s with sync := sync, workers := Function.update s.workers w pc }
  | .signalError => some { s with sync := { s.sync with badFlag := true } }

/-- How a session begins; an earlier one may have left any reader count. -/
def start (dm : DataModel) (n : ℕ) (count : ℤ) : Session dm n :=
  { sync := { dataReaderCount := count } }

def machine (dm : DataModel) (n : ℕ) :
    Machine (Session dm n) (SessionStep dm n) where
  init s := ∃ count, s = start dm n count
  step := step

/-! ## §7  Schedules with one worker -/

/-- The listener's claim and the start of the other threads, up to the first
message. -/
def opening : List (SessionStep .lp64 1) :=
  List.replicate 6 .listener ++ [.worker 0 .proceed]

/-- The listener gets a message, and switches to the other buffer if the
calculator has. -/
def message (switched : Bool) : List (SessionStep .lp64 1) :=
  List.replicate (if switched then 6 else 3) .listener ++
    [.dispatch 0 (.disconnected {})]

def after (steps : List (SessionStep .lp64 1)) : Session .lp64 1 :=
  ((machine .lp64 1).schedule (start .lp64 1 0) steps).getD {}

end Session

end RatingService
