import RatingService.Service.RatingCalculator

/-!
# The message dispatcher

`service/message_dispatcher.cpp`, and the double buffer the dispatcher fills
while the calculator works on the other half.

- §1: one message, into one buffer.
- §2: the double buffer.
-/

namespace RatingService

variable {dm : DataModel} {n : ℕ}

/-! ## §1  Dispatching -/

/-- `dispatch`, for every kind of message. `second` is what
`DateTime::currentSecondIndex` returns: a floor to the second less a floor to
the minute, so below 60. -/
def dispatch (second : Fin 60) (buffer : IncomingDataBuffer dm)
    (queue : JobQueue n) :
    ClientMessage dm → IncomingDataBuffer dm × JobQueue n
  | .registered msg =>
      ({ buffer with usersRegistered :=
          (buffer.usersRegistered.insertIfNew msg.userId msg.userName) }, queue)
  | .renamed msg =>
      ({ buffer with usersRenamed :=
          (buffer.usersRenamed.insertIfNew msg.userId msg.userName) }, queue)
  | .connected msg =>
      ({ buffer with connectionChanges :=
          (buffer.connectionChanges.insert msg.userId
            (UInt8.ofNat second.val)) },
        queue.enqueuePromise
          (msg.userId, buffer.usersRegistered.contains msg.userId))
  | .disconnected msg =>
      ({ buffer with connectionChanges :=
          (buffer.connectionChanges.insert msg.userId invalidSecond) }, queue)
  | .dealWon msg =>
      ({ buffer with dealsWon :=
          (buffer.dealsWon.insert msg.userId
            ((buffer.dealsWon[msg.userId]?).getD 0 + msg.winnings)) }, queue)

/-- What `dispatch` does to the buffer; the queue has no part in it. -/
def IncomingDataBuffer.record (second : Fin 60)
    (buffer : IncomingDataBuffer dm) (msg : ClientMessage dm) :
    IncomingDataBuffer dm :=
  (dispatch second buffer (JobQueue.create Nat.one_pos) msg).1

theorem dispatch_fst (second : Fin 60) (buffer : IncomingDataBuffer dm)
    (queue : JobQueue n) (msg : ClientMessage dm) :
    (dispatch second buffer queue msg).1 = buffer.record second msg := by
  cases msg <;> rfl

/-- A buffer into which these messages were dispatched, each in its second. -/
def dispatchAll (msgs : List (Fin 60 × ClientMessage dm)) :
    IncomingDataBuffer dm :=
  msgs.foldl (fun buffer msg => buffer.record msg.1 msg.2) {}

theorem dispatchAll_append (msgs : List (Fin 60 × ClientMessage dm))
    (msg : Fin 60 × ClientMessage dm) :
    dispatchAll (msgs ++ [msg]) =
      (dispatchAll msgs).record msg.1 msg.2 := by
  rw [dispatchAll, List.foldl_append]
  rfl

/-- The assertion of `processConnectionChanges` on a buffer's seconds. -/
def IncomingDataBuffer.SecondsOk (buffer : IncomingDataBuffer dm) : Prop :=
  ∀ (id : IdT) (second : ConnectTimeT),
    buffer.connectionChanges[id]? = some second →
      second < 60 ∨ second = invalidSecond

theorem secondsOk_empty : ({} : IncomingDataBuffer dm).SecondsOk := by
  intro id second h
  simp at h

/-- Whatever is dispatched, the seconds stay proper. -/
theorem dispatch_secondsOk {buffer : IncomingDataBuffer dm}
    (second : Fin 60) (queue : JobQueue n) (msg : ClientMessage dm)
    (h : buffer.SecondsOk) : (dispatch second buffer queue msg).1.SecondsOk := by
  have hinsert : ∀ (id : IdT) (v : ConnectTimeT),
      (v < 60 ∨ v = invalidSecond) →
      ({ buffer with connectionChanges :=
        (buffer.connectionChanges.insert id v) } :
          IncomingDataBuffer dm).SecondsOk := by
    intro id v hv id' v' h'
    rw [Std.TreeMap.getElem?_insert] at h'
    split at h'
    · cases h'
      exact hv
    · exact h id' v' h'
  cases msg with
  | registered msg => exact h
  | renamed msg => exact h
  | connected msg =>
      refine hinsert _ _ (Or.inl ?_)
      rw [UInt8.lt_iff_toNat_lt, UInt8.toNat_ofNat_of_lt'
        (Nat.lt_trans second.isLt (by decide))]
      exact second.isLt
  | disconnected msg => exact hinsert _ _ (Or.inr rfl)
  | dealWon msg => exact h

/-! ## §2  The double buffer -/

/-- `IncomingDataDoubleBuffer`. The pointer `currentBuffer` always leads to the
buffer with the index `currentBufferIndex` once a recalculation has switched
them. -/
structure IncomingDataDoubleBuffer (dm : DataModel) where
  buffers : Fin 2 → IncomingDataBuffer dm := fun _ => {}
  currentBufferIndex : Fin 2 := 0

namespace IncomingDataDoubleBuffer

def currentBuffer (d : IncomingDataDoubleBuffer dm) : IncomingDataBuffer dm :=
  d.buffers d.currentBufferIndex

def setBuffer (d : IncomingDataDoubleBuffer dm) (i : Fin 2)
    (buffer : IncomingDataBuffer dm) : IncomingDataDoubleBuffer dm :=
  { d with buffers := Function.update d.buffers i buffer }

/-- `currentBufferIndex = 1 - currentBufferIndex`. -/
def switch (d : IncomingDataDoubleBuffer dm) : IncomingDataDoubleBuffer dm :=
  { d with currentBufferIndex := 1 - d.currentBufferIndex }

theorem setBuffer_secondsOk {d : IncomingDataDoubleBuffer dm} {i : Fin 2}
    {buffer : IncomingDataBuffer dm} (h : ∀ j, (d.buffers j).SecondsOk)
    (hb : buffer.SecondsOk) (j : Fin 2) :
    ((d.setBuffer i buffer).buffers j).SecondsOk := by
  unfold setBuffer
  by_cases hj : j = i
  · subst hj
    simpa using hb
  · simpa [hj] using h j

theorem buffers_cleared {d : IncomingDataDoubleBuffer dm}
    (hother : ∀ i, i ≠ d.currentBufferIndex → d.buffers i = {}) (i : Fin 2) :
    ((d.setBuffer d.currentBufferIndex {}).switch).buffers i = {} := by
  show Function.update d.buffers d.currentBufferIndex {} i = {}
  by_cases hi : i = d.currentBufferIndex
  · rw [hi, Function.update_self]
  · rw [Function.update_of_ne hi, hother i hi]

end IncomingDataDoubleBuffer

end RatingService
