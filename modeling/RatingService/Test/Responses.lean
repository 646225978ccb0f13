import RatingService.Service.RatingPack
import RatingService.Service.ReportedErrors
import RatingService.Service.WorkerJobs

/-!
# The client's responses

The other end of the wire, `Strategy::processResponses` of `test/strategy.cpp`:
one message after the other is received into the same storage, and a rating
is read into the same object.

- §1: the code.
- §2: frames read back.
- §3: the response to a job.
-/

namespace RatingService

open PodCodec ProtocolConstants

variable {dm : DataModel}

/-! ## §1  The code -/

/-- `init` of the classes derived from `GenericProtocolError`. -/
def GenericProtocolError.init (error : GenericProtocolError)
    (buffer : BinaryIStream) : Outcome (GenericProtocolError × BinaryIStream) :=
  match error with
  | .userUnrecognized _ => do
      let (userId, buffer) ← buffer.readPod IdT
      .ok (.userUnrecognized userId, buffer)
  | .multipleRegistration _ => do
      let (userId, buffer) ← buffer.readPod IdT
      .ok (.multipleRegistration userId, buffer)
  | .unsupportedProtocolVersion _ => do
      let (expectedVersion, buffer) ← buffer.readPod ProtocolVersionT
      .ok (.unsupportedProtocolVersion expectedVersion, buffer)

/-- What is passed on to `validateRating` or `validateError`. -/
inductive Response (dm : DataModel) where
  | rating (rating : RatingPackMessage dm)
  | error (error : GenericProtocolError)

/-- What `processResponses` keeps from message to message. -/
structure ResponseReader (dm : DataModel) where
  rating : RatingPackMessage dm := {}
  msgStorage : BufferT := []

namespace ResponseReader

/-- The switches of `processResponses`. A message of an unknown code is passed
over. -/
def interpret (rating : RatingPackMessage dm) (buffer : BinaryIStream) :
    Outcome (Option (Response dm) × RatingPackMessage dm) := do
  let (mc, buffer) ← buffer.readPod MessageCodeT
  if mc = ServiceMessageCode.userRating.code then
    let (rating, _) ← rating.init buffer
    .ok (some (.rating rating), rating)
  else if mc = ServiceMessageCode.protocolError.code then
    let (ec, buffer) ← buffer.readPod ErrorCodeT
    if ec = ProtocolError.protocolVersionUnsupported.code then
      let _ ← (GenericProtocolError.unsupportedProtocolVersion
        invalidVersion).init buffer
      .error (.thrown .literal)
    else if ec = ProtocolError.multipleRegistration.code then
      let (error, _) ←
        (GenericProtocolError.multipleRegistration invalidUserId).init buffer
      .ok (some (.error error), rating)
    else if ec = ProtocolError.userUnrecognized.code then
      let (error, _) ←
        (GenericProtocolError.userUnrecognized invalidUserId).init buffer
      .ok (some (.error error), rating)
    else .error .assertion
  else .ok (none, rating)

def turn (reader : ResponseReader dm) (stream : BufferT) :
    Outcome (Option (Response dm) × ResponseReader dm × BufferT) := do
  let (buffer, stream) ← receive stream reader.msgStorage
  let (response, rating) ← interpret reader.rating buffer
  .ok (response, { rating, msgStorage := buffer.storage }, stream)

/-- `processResponses`, as many turns. -/
def processResponses :
    ℕ → ResponseReader dm → BufferT →
      Outcome (List (Response dm) × ResponseReader dm × BufferT)
  | 0, reader, stream => .ok ([], reader, stream)
  | turns + 1, reader, stream => do
      let (response, reader, stream) ← reader.turn stream
      let (responses, reader, stream) ← processResponses turns reader stream
      .ok (response.toList ++ responses, reader, stream)

end ResponseReader

open ResponseReader

/-! ## §2  Frames read back -/

/-- **A frame is read as the response**, whatever is in the reader's objects and
whatever follows the frame. -/
def Reads (frame : BufferT) (response : Response dm) : Prop :=
  ∀ (reader : ResponseReader dm) (tail : BufferT), ∃ reader',
    reader.turn (frame ++ tail) = .ok (some response, reader', tail)

theorem reads_of_interpret {payload : BufferT} {response : Response dm}
    (hsize : payload.length + 2 < 2 ^ 16)
    (h : ∀ rating : RatingPackMessage dm, ∃ rating',
      interpret rating { storage := payload } = .ok (some response, rating')) :
    Reads (sizePrefix (payload.length + 2) ++ payload) response := by
  intro reader tail
  obtain ⟨rating', hinterpret⟩ := h reader.rating
  refine ⟨{ rating := rating', msgStorage := payload }, ?_⟩
  rw [turn, receive_prefix tail reader.msgStorage hsize, ok_bind]
  dsimp only
  rw [hinterpret, ok_bind]

theorem errorFrame_eq (error : GenericProtocolError) :
    errorFrame error = sizePrefix
        ((ServiceMessageCode.protocolError.code :: error.bytes).length + 2) ++
      ServiceMessageCode.protocolError.code :: error.bytes := by
  have hbuffer : createAdaptedErrorBuffer =
      { storage := [0, 0, 1], curPos := 3 } := rfl
  have hv : createAdaptedErrorBuffer.Valid := by
    rw [hbuffer]
    exact le_refl 3
  rw [errorFrame, writeMessage_storage, error.store_eq hv, hbuffer,
    BinaryOStream.copyIn_end rfl, List.length_append, Nat.add_comm]
  rfl

theorem interpret_error (ec : ErrorCodeT) (bytes : BufferT)
    (rating : RatingPackMessage dm) :
    ∃ s : BinaryIStream, s.Before bytes [] ∧
      interpret rating { storage :=
          ServiceMessageCode.protocolError.code :: (Pod.encode ec ++ bytes) } =
        if ec = ProtocolError.protocolVersionUnsupported.code then do
          let _ ← (GenericProtocolError.unsupportedProtocolVersion
            invalidVersion).init s
          .error (.thrown .literal)
        else if ec = ProtocolError.multipleRegistration.code then do
          let (error, _) ←
            (GenericProtocolError.multipleRegistration invalidUserId).init s
          .ok (some (.error error), rating)
        else if ec = ProtocolError.userUnrecognized.code then do
          let (error, _) ←
            (GenericProtocolError.userUnrecognized invalidUserId).init s
          .ok (some (.error error), rating)
        else .error .assertion := by
  have hs : ({ storage := ServiceMessageCode.protocolError.code ::
      (Pod.encode ec ++ bytes) } : BinaryIStream).Before
      (Pod.encode ServiceMessageCode.protocolError.code ++
        (Pod.encode ec ++ bytes)) [] := by
    refine ⟨Nat.zero_le _, ?_⟩
    rw [encode_uint8, List.append_nil]
    rfl
  obtain ⟨s₁, hcode, h₁⟩ := BinaryIStream.readPod_encode hs
  obtain ⟨s₂, hec, h₂⟩ := BinaryIStream.readPod_encode h₁
  refine ⟨s₂, h₂, ?_⟩
  rw [interpret, hcode, ok_bind]
  dsimp only
  rw [if_neg (by decide), if_pos rfl, hec, ok_bind]

/-- **An error frame, there and back.** -/
theorem reads_errorFrame {error : GenericProtocolError} (h : error.AboutUser) :
    Reads (errorFrame error) (Response.error error : Response dm) := by
  rw [errorFrame_eq]
  refine reads_of_interpret ?_ fun rating => ⟨rating, ?_⟩
  · cases error <;> simp [GenericProtocolError.bytes, Pod.length_encode,
      Pod.sizeof]
  · cases error with
    | unsupportedProtocolVersion _ => exact h.elim
    | userUnrecognized userId =>
        obtain ⟨s, hs, hinterpret⟩ := interpret_error
          ProtocolError.userUnrecognized.code (Pod.encode userId ++ []) rating
        obtain ⟨s', hread, -⟩ := BinaryIStream.readPod_encode hs
        rw [List.append_nil] at hinterpret
        refine hinterpret.trans ?_
        rw [if_neg (by decide), if_neg (by decide), if_pos rfl]
        simp only [GenericProtocolError.init, hread, ok_bind]
    | multipleRegistration userId =>
        obtain ⟨s, hs, hinterpret⟩ := interpret_error
          ProtocolError.multipleRegistration.code (Pod.encode userId ++ [])
          rating
        obtain ⟨s', hread, -⟩ := BinaryIStream.readPod_encode hs
        rw [List.append_nil] at hinterpret
        refine hinterpret.trans ?_
        rw [if_neg (by decide), if_pos rfl]
        simp only [GenericProtocolError.init, hread, ok_bind]

/-- **A rating's frame, there and back.** -/
theorem reads_ratingFrame {rating : List (FullUserData dm)}
    (hnames : ∀ u ∈ rating, u.name.length ≤ 255)
    (hlen : rating.length + 11 < 2 ^ 31) (id : IdT) {r : ℕ}
    (hr : r ≤ rating.length) :
    Reads (ratingFrame rating id r)
      (.rating ⟨id, Int32.ofInt rating.length, Int32.ofInt r,
        (window rating r).map FullUserData.entry⟩) := by
  have hsize := length_packFrame_lt hnames id r
  rw [packFrame, List.length_append, length_sizePrefix] at hsize
  rw [ratingFrame, if_pos (by omega), packFrame]
  refine reads_of_interpret (by omega) fun old => ?_
  have hs : ({ storage := packPayload rating id r (neighbourhood rating r) } :
      BinaryIStream).Before (Pod.encode ServiceMessageCode.userRating.code ++
        (headerBytes id rating.length r ++ entriesBytes (window rating r)))
      [] := by
    refine ⟨Nat.zero_le _, ?_⟩
    rw [encode_uint8, window_eq, entriesBytes, List.flatMap_append,
      List.append_nil]
    simp [BinaryIStream.rest, packPayload, entriesBytes]
  obtain ⟨s, hcode, h₁⟩ := BinaryIStream.readPod_encode hs
  obtain ⟨s', hinit, -⟩ := old.init_bytes hnames (by omega) hr h₁
  refine ⟨⟨id, Int32.ofInt rating.length, Int32.ofInt r,
    (window rating r).map FullUserData.entry⟩, ?_⟩
  rw [interpret, hcode, ok_bind]
  dsimp only
  rw [if_pos rfl, hinit, ok_bind]

/-- **A stream of frames, there and back.** -/
theorem processResponses_frames {frames : List BufferT}
    {responses : List (Response dm)}
    (h : List.Forall₂ Reads frames responses) (reader : ResponseReader dm)
    (tail : BufferT) :
    ∃ reader', processResponses frames.length reader (frames.flatten ++ tail) =
      .ok (responses, reader', tail) := by
  induction h generalizing reader with
  | nil => exact ⟨reader, rfl⟩
  | @cons frame response frames responses hread hrest ih =>
      obtain ⟨reader₁, hturn⟩ := hread reader (frames.flatten ++ tail)
      obtain ⟨reader', hreads⟩ := ih reader₁
      refine ⟨reader', ?_⟩
      rw [List.length_cons, processResponses, List.flatten_cons,
        List.append_assoc, hturn, ok_bind]
      dsimp only
      rw [hreads, ok_bind]
      rfl

/-! ## §3  The response to a job -/

def CoreRatingData.pack (d : CoreRatingData dm) (id : IdT) (r : ℕ) :
    Response dm :=
  .rating ⟨id, Int32.ofInt d.standings.length, Int32.ofInt r,
    (window d.standings r).map FullUserData.entry⟩

/-- **The response a job should bring**: its error; for an active user the pack
of the place he has; for another one the pack of the place behind the last, or
the error if nobody knows him. -/
def WorkerJob.Brings (d : CoreRatingData dm) :
    WorkerJob → Response dm → Prop
  | .error e, response => response = .error e
  | .userIdPromise promise, response =>
      (∃ r, d.StandsAt promise.1 r ∧ response = d.pack promise.1 r) ∨
      ¬ (d.userState promise.1).isActive ∧
        response = if (d.userState promise.1).isRegistered ∨
            promise.2 = true then d.pack promise.1 d.rating.length
          else .error (.userUnrecognized promise.1)
  | .userData p, response =>
      ∃ r, d.rating[r]? = some p ∧ response = d.pack p.owner r

def WorkerJob.Reported : WorkerJob → Prop
  | .error e => e.AboutUser
  | _ => True

/-- **The right frame is read as the right response.** -/
theorem WorkerJob.AnsweredBy.reads {d : CoreRatingData dm} {job : WorkerJob}
    {frame : BufferT} (h : job.AnsweredBy d frame) (hd : d.Servable)
    (hroom : d.rating.length + 11 < 2 ^ 31) (hjob : job.Reported) :
    ∃ response : Response dm, Reads frame response ∧ job.Brings d response := by
  have hlength := hd.ratedUsers.2
  have hpack : ∀ (id : IdT) (r : ℕ), r ≤ d.rating.length →
      Reads (ratingFrame d.standings id r) (d.pack id r) := fun id r hr =>
    reads_ratingFrame hd.standings_names (by omega) id (by omega)
  have hplace : ∀ {r : ℕ} {p : UserRef}, d.rating[r]? = some p →
      r ≤ d.rating.length := by
    intro r p hp
    exact (List.getElem?_eq_some_iff.mp hp).1.le
  cases job with
  | error e =>
      cases h
      exact ⟨.error e, reads_errorFrame hjob, rfl⟩
  | userIdPromise promise =>
      rcases h with ⟨r, ⟨p, hp, hat⟩, rfl⟩ | ⟨hinactive, rfl⟩
      · exact ⟨_, hpack _ _ (hplace hp), .inl ⟨r, ⟨p, hp, hat⟩, rfl⟩⟩
      · refine ⟨_, ?_, .inr ⟨hinactive, rfl⟩⟩
        split
        · exact hpack _ _ le_rfl
        · exact reads_errorFrame trivial
  | userData p =>
      obtain ⟨r, hp, rfl⟩ := h
      exact ⟨_, hpack _ _ (hplace hp), r, hp, rfl⟩

end RatingService
