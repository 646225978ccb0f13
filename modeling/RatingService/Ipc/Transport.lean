import RatingService.Ipc.Protocol

/-!
# The transport layer

`ipc/transport.h` above the socket: the size prefix, the buffers both sides
write their messages in, and the handshake. The bytes a peer sends are a list;
`asio::read` takes exactly the bytes it is asked for off its front, or fails
where there are not enough.

- §1: writing a message.
- §2: receiving a message.
- §3: the handshake.
-/

namespace RatingService

open PodCodec ProtocolConstants

/-! ## §1  Writing -/

def createAdaptedMessageBuffer : BinaryOStream :=
  ({} : BinaryOStream).writePod (0 : MessageSizeT)

/-- `ServerSideTransport::createAdaptedRatingBuffer`. -/
def createAdaptedRatingBuffer : BinaryOStream :=
  (({} : BinaryOStream).writePod (0 : MessageSizeT)).writePod
    ServiceMessageCode.userRating.code

def createAdaptedErrorBuffer : BinaryOStream :=
  (({} : BinaryOStream).writePod (0 : MessageSizeT)).writePod
    ServiceMessageCode.protocolError.code

/-- `writeMessage`, of either side: the size goes in at the front, truncated
to the prefix's type. What is then sent is the whole storage. -/
def writeMessage (buffer : BinaryOStream) : BinaryOStream :=
  (buffer.setPos 0).2.writePod (UInt16.ofNat buffer.storage.length)

def sizePrefix (size : ℕ) : BufferT :=
  Pod.encode (UInt16.ofNat size : MessageSizeT)

@[simp] theorem length_sizePrefix (size : ℕ) : (sizePrefix size).length = 2 :=
  Pod.length_encode _

/-- **What is sent**: the size prefix in the place of the first two bytes. -/
theorem writeMessage_storage (buffer : BinaryOStream) :
    (writeMessage buffer).storage =
      sizePrefix buffer.storage.length ++ buffer.storage.drop 2 := by
  have hv : ({ buffer with curPos := 0 } : BinaryOStream).Valid :=
    Nat.zero_le _
  show (({ buffer with curPos := 0 } : BinaryOStream).writePod _).storage = _
  rw [BinaryOStream.writePod_eq hv]
  show memcpyAt buffer.storage 0 (sizePrefix buffer.storage.length) = _
  rw [memcpyAt, List.take_zero, List.nil_append, length_sizePrefix,
    Nat.zero_add]

theorem two_le_writeMessage (buffer : BinaryOStream) :
    2 ≤ (writeMessage buffer).storage.length := by
  rw [writeMessage_storage, List.length_append, length_sizePrefix]
  omega

/-! ## §2  Receiving -/

/-- `GenericMessageLayer::receive`, on the bytes still to come and the storage
the caller reuses. A size below that of the prefix itself makes
`storage.resize` throw, a stream that ends too early the read. -/
def receive (stream : BufferT) (storage : BufferT) :
    Outcome (BinaryIStream × BufferT) :=
  if stream.length < 2 then .error (.thrown .transportErrorRecoverable)
  else
    let ms : MessageSizeT := Pod.decode (stream.take 2)
    let stream := stream.drop 2
    if ms.toNat < 2 then .error (.thrown .stdException)
    else
      let size := ms.toNat - 2
      if stream.length < size then
        .error (.thrown .transportErrorRecoverable)
      else
        .ok ({ storage := memcpyAt (resize storage size) 0 (stream.take size) },
          stream.drop size)

/-- **One message received**: the payload behind its size prefix, whatever
the storage held before. -/
theorem receive_prefix {payload : BufferT} (tail storage : BufferT)
    (hsize : payload.length + 2 < 2 ^ 16) :
    receive (sizePrefix (payload.length + 2) ++ payload ++ tail) storage =
      .ok ({ storage := payload }, tail) := by
  have htake : (sizePrefix (payload.length + 2) ++ payload ++ tail).take 2 =
      sizePrefix (payload.length + 2) := by
    rw [List.append_assoc, List.take_left' (length_sizePrefix _)]
  have hdrop : (sizePrefix (payload.length + 2) ++ payload ++ tail).drop 2 =
      payload ++ tail := by
    rw [List.append_assoc, List.drop_left' (length_sizePrefix _)]
  have hms : (UInt16.ofNat (payload.length + 2)).toNat = payload.length + 2 := by
    rw [UInt16.toNat_ofNat']
    omega
  have hlength : ¬ (sizePrefix (payload.length + 2) ++ payload ++ tail).length
      < 2 := by
    simp only [List.length_append, length_sizePrefix]
    omega
  unfold receive
  rw [if_neg hlength, htake, hdrop, sizePrefix]
  simp only [Pod.decode_encode, hms]
  rw [if_neg (by omega), if_neg (by simp)]
  simp only [Nat.add_sub_cancel, List.take_left, List.drop_left]
  rw [memcpyAt_zero (length_resize _ _)]

/-! ## §3  The handshake -/

def clientLaunch : BufferT :=
  let msg : HandshakeMsg := ⟨version⟩
  let messageBuffer := userMsgCodePrefix .handshake createAdaptedMessageBuffer
  (writeMessage (msg.store messageBuffer)).storage

/-- The `try` block of `ServerSideTransport::launch`. -/
def readHandshake (buffer : BinaryIStream) : Outcome HandshakeMsg := do
  let (mc, buffer) ← buffer.readPod MessageCodeT
  if mc ≠ ClientMessageCode.handshake.code then .error (.thrown .literal)
  else
    let (msg, _) ← ({} : HandshakeMsg).init buffer
    .ok msg

def versionRejection : BufferT :=
  (writeMessage ((GenericProtocolError.unsupportedProtocolVersion version).store
    createAdaptedErrorBuffer)).storage

/-- `ServerSideTransport::launch` on the client's bytes: how it ends, with the
bytes still to come, and what it has sent. -/
def launch (stream : BufferT) : Outcome BufferT × BufferT :=
  match receive stream [] with
  | .error e => (.error e, [])
  | .ok (buffer, stream) =>
      match readHandshake buffer with
      | .error _ => (.error (.thrown .transportErrorRecoverable), [])
      | .ok msg =>
          if msg.protoVersion ≠ version then
            (.error (.thrown .transportErrorRecoverable), versionRejection)
          else (.ok stream, [])

end RatingService
