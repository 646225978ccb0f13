import RatingService.Ipc.Transport

/-!
# The client's stream

What a client sends in a session, and `service/message_builder.h`, which reads
it back. Both ends reuse their objects: the client one buffer for all its
messages, the service one storage and one message object of every kind.

- §1: the client's side.
- §2: the message builder.
- §3: one message.
- §4: a session's messages.
-/

namespace RatingService

open PodCodec ProtocolConstants

variable {dm : DataModel}

/-! ## §1  The client -/

/-- One message of a client, in the buffer it reuses: rewind, code, fields,
size prefix. What is sent is then in the storage. -/
def sendMessage (pos : ℕ) (messageBuffer : BinaryOStream)
    (msg : ClientMessage dm) : Outcome BinaryOStream := do
  let messageBuffer := (messageBuffer.rewind pos).2
  let messageBuffer := userMsgCodePrefix msg.code messageBuffer
  let messageBuffer ← msg.store messageBuffer
  .ok (writeMessage messageBuffer)

def sendMessages (pos : ℕ) :
    BinaryOStream → List (ClientMessage dm) → Outcome BufferT
  | _, [] => .ok []
  | messageBuffer, msg :: msgs => do
      let messageBuffer ← sendMessage pos messageBuffer msg
      let sent ← sendMessages pos messageBuffer msgs
      .ok (messageBuffer.storage ++ sent)

def clientStream (msgs : List (ClientMessage dm)) : Outcome BufferT := do
  let messageBuffer := createAdaptedMessageBuffer
  let sent ← sendMessages messageBuffer.getPos messageBuffer msgs
  .ok (clientLaunch ++ sent)

/-! ## §2  The message builder -/

structure MessageBattery (dm : DataModel) where
  userRegisteredMsg : UserRegisteredMsg := {}
  userRenamedMsg : UserRenamedMsg := {}
  userConnectedMsg : UserConnectedMsg := {}
  userDisconnectedMsg : UserDisconnectedMsg := {}
  userDealWonMsg : UserDealWonMsg dm := {}

/-- `MessageBuilder`: the battery it fills and the storage it reads into. -/
structure MessageBuilder (dm : DataModel) where
  battery : MessageBattery dm := {}
  bufferStorage : BufferT := []

namespace MessageBattery

/-- The `switch` of `build`, on the code as it was read. -/
def init (b : MessageBattery dm) (messageData : BinaryIStream)
    (messageCode : MessageCodeT) :
    Outcome (ClientMessageCode × MessageBattery dm) :=
  if messageCode = ClientMessageCode.userRegistered.code then do
    let (msg, _) ← b.userRegisteredMsg.init messageData
    .ok (.userRegistered, { b with userRegisteredMsg := msg })
  else if messageCode = ClientMessageCode.userRenamed.code then do
    let (msg, _) ← b.userRenamedMsg.init messageData
    .ok (.userRenamed, { b with userRenamedMsg := msg })
  else if messageCode = ClientMessageCode.userConnected.code then do
    let (msg, _) ← b.userConnectedMsg.init messageData
    .ok (.userConnected, { b with userConnectedMsg := msg })
  else if messageCode = ClientMessageCode.userDisconnected.code then do
    let (msg, _) ← b.userDisconnectedMsg.init messageData
    .ok (.userDisconnected, { b with userDisconnectedMsg := msg })
  else if messageCode = ClientMessageCode.userDealWon.code then do
    let (msg, _) ← b.userDealWonMsg.init messageData
    .ok (.userDealWon, { b with userDealWonMsg := msg })
  else .error (.thrown (.messageCodeUnrecognized messageCode))

/-- The object `Overseer::run` dispatches for a code that `build` returns; no
other code is one of its cases. -/
def message (b : MessageBattery dm) : ClientMessageCode →
    Option (ClientMessage dm)
  | .userRegistered => some (.registered b.userRegisteredMsg)
  | .userRenamed => some (.renamed b.userRenamedMsg)
  | .userConnected => some (.connected b.userConnectedMsg)
  | .userDisconnected => some (.disconnected b.userDisconnectedMsg)
  | .userDealWon => some (.dealWon b.userDealWonMsg)
  | .handshake => none

end MessageBattery

namespace MessageBuilder

/-- `build` on the bytes still to come. -/
def build (builder : MessageBuilder dm) (stream : BufferT) :
    Outcome (ClientMessageCode × MessageBuilder dm × BufferT) := do
  let (messageData, stream) ← receive stream builder.bufferStorage
  let bufferStorage := messageData.storage
  let (messageCode, messageData) ← messageData.readPod MessageCodeT
  let (code, battery) ← builder.battery.init messageData messageCode
  .ok (code, { battery, bufferStorage }, stream)

/-- `build` so many times: the codes it returns with the objects it leaves for
them, and the bytes still to come. -/
def builds (builder : MessageBuilder dm) (stream : BufferT) : ℕ →
    Outcome (List (ClientMessageCode × Option (ClientMessage dm)) × BufferT)
  | 0 => .ok ([], stream)
  | count + 1 => do
      let (code, builder, stream) ← builder.build stream
      let (built, stream) ← builds builder stream count
      .ok ((code, builder.battery.message code) :: built, stream)

end MessageBuilder

/-! ## §3  One message -/

namespace ClientMessage

/-- What the constructors of the named messages assert. -/
def NameFits : ClientMessage dm → Prop
  | .registered msg | .renamed msg => msg.userName.length ≤ 255
  | _ => True

def bytes : ClientMessage dm → BufferT
  | .registered msg | .renamed msg => Pod.encode msg.userId ++
      UInt8.ofNat msg.userName.length :: msg.userName
  | .connected msg | .disconnected msg => Pod.encode msg.userId
  | .dealWon msg => Pod.encode msg.userId ++ Pod.encode msg.winnings

/-- The bytes between a message's size prefix and the next message. -/
def payload (msg : ClientMessage dm) : BufferT := msg.code.code :: msg.bytes

def frame (msg : ClientMessage dm) : BufferT :=
  sizePrefix (msg.payload.length + 2) ++ msg.payload

theorem length_payload {msg : ClientMessage dm} (h : msg.NameFits) :
    msg.payload.length + 2 < 2 ^ 16 := by
  have hid : ∀ id : IdT, (Pod.encode id).length = 4 := Pod.length_encode
  have hlong := dm.sizeofLong_le
  cases msg with
  | registered msg =>
      have hname : msg.userName.length ≤ 255 := h
      simp only [payload, bytes, List.length_cons, List.length_append, hid]
      omega
  | renamed msg =>
      have hname : msg.userName.length ≤ 255 := h
      simp only [payload, bytes, List.length_cons, List.length_append, hid]
      omega
  | connected msg => simp [payload, bytes, hid]
  | disconnected msg => simp [payload, bytes, hid]
  | dealWon msg =>
      have hwon : (Pod.encode msg.winnings).length = dm.sizeofLong :=
        Pod.length_encode _
      simp only [payload, bytes, List.length_cons, List.length_append, hid, hwon]
      omega

theorem GenericIdNameMsg.store_eq {msg : GenericIdNameMsg}
    {buffer : BinaryOStream} (hv : buffer.Valid)
    (h : msg.userName.length ≤ 255) :
    msg.store buffer = .ok (buffer.copyIn (Pod.encode msg.userId ++
      UInt8.ofNat msg.userName.length :: msg.userName)) := by
  have hv' := BinaryOStream.copyIn_valid hv (Pod.encode msg.userId)
  rw [GenericIdNameMsg.store, GenericIdMsg.store, BinaryOStream.writePod_eq hv,
    BinaryOStream.writeBuffer_eq hv' h, BinaryOStream.copyIn_copyIn hv]

/-- **Storing** copies the fields in at the position. -/
theorem store_eq {msg : ClientMessage dm} {buffer : BinaryOStream}
    (hv : buffer.Valid) (h : msg.NameFits) :
    msg.store buffer = .ok (buffer.copyIn msg.bytes) := by
  cases msg with
  | registered msg => exact GenericIdNameMsg.store_eq hv h
  | renamed msg => exact GenericIdNameMsg.store_eq hv h
  | connected msg => exact congrArg _ (BinaryOStream.writePod_eq hv _)
  | disconnected msg => exact congrArg _ (BinaryOStream.writePod_eq hv _)
  | dealWon msg =>
      have hv' := BinaryOStream.copyIn_valid hv (Pod.encode msg.userId)
      rw [ClientMessage.store, UserDealWonMsg.store, GenericIdMsg.store,
        BinaryOStream.writePod_eq hv, BinaryOStream.writePod_eq hv',
        BinaryOStream.copyIn_copyIn hv]
      rfl

end ClientMessage

/-- **One message sent**: its size, its code and its fields, whatever the
buffer was used for before. -/
theorem sendMessage_eq {buffer : BinaryOStream} {msg : ClientMessage dm}
    (hbuffer : 2 ≤ buffer.storage.length) (h : msg.NameFits) :
    ∃ buffer', sendMessage 2 buffer msg = .ok buffer' ∧
      buffer'.storage = msg.frame := by
  have hlen : (resize buffer.storage 2).length = 2 := length_resize _ _
  have hv : ({ storage := resize buffer.storage 2, curPos := 2 } :
      BinaryOStream).Valid := hlen.ge
  have hrewind : (buffer.rewind 2).2 =
      { storage := resize buffer.storage 2, curPos := 2 } := by
    rw [BinaryOStream.rewind, if_neg (Nat.not_lt.mpr hbuffer)]
  have hcopy : (({ storage := resize buffer.storage 2, curPos := 2 } :
      BinaryOStream).copyIn msg.payload).storage =
      resize buffer.storage 2 ++ msg.payload := by
    rw [BinaryOStream.copyIn_end hlen.symm]
  refine ⟨writeMessage (({ storage := resize buffer.storage 2, curPos := 2 } :
    BinaryOStream).copyIn msg.payload), ?_, ?_⟩
  · have hv' := BinaryOStream.copyIn_valid hv [msg.code.code]
    rw [sendMessage, hrewind, userMsgCodePrefix, BinaryOStream.writePod_eq hv,
      encode_uint8, ClientMessage.store_eq hv' h,
      BinaryOStream.copyIn_copyIn hv]
    rfl
  · rw [writeMessage_storage, hcopy, List.drop_left' hlen, List.length_append,
      hlen, Nat.add_comm]
    rfl

namespace GenericIdNameMsg

theorem init_bytes {msg : GenericIdNameMsg} (old : GenericIdNameMsg)
    {data : BinaryIStream} {tail : BufferT} (h : msg.userName.length ≤ 255)
    (hdata : data.Before (Pod.encode msg.userId ++
      UInt8.ofNat msg.userName.length :: msg.userName) tail) :
    ∃ data', old.init data = .ok (msg, data') := by
  obtain ⟨data₁, hid, h₁⟩ := BinaryIStream.readPod_encode hdata
  obtain ⟨data₂, hname, -⟩ :=
    BinaryIStream.readBuffer_encode old.userName h h₁.append_nil
  refine ⟨data₂, ?_⟩
  rw [init, GenericIdMsg.init, hid]
  simp only [ok_bind, hname]

end GenericIdNameMsg

theorem GenericIdMsg.init_bytes {msg : GenericIdMsg} (old : GenericIdMsg)
    {data : BinaryIStream} {tail : BufferT}
    (hdata : data.Before (Pod.encode msg.userId) tail) :
    ∃ data', old.init data = .ok (msg, data') := by
  obtain ⟨data', hid, -⟩ := BinaryIStream.readPod_encode hdata.append_nil
  exact ⟨data', by rw [init, hid]; rfl⟩

theorem UserDealWonMsg.init_bytes {msg : UserDealWonMsg dm}
    (old : UserDealWonMsg dm) {data : BinaryIStream} {tail : BufferT}
    (hdata : data.Before (Pod.encode msg.userId ++ Pod.encode msg.winnings)
      tail) :
    ∃ data', old.init data = .ok (msg, data') := by
  obtain ⟨data₁, hid, h₁⟩ := BinaryIStream.readPod_encode hdata
  obtain ⟨data₂, hwon, -⟩ := BinaryIStream.readPod_encode h₁.append_nil
  refine ⟨data₂, ?_⟩
  rw [init, GenericIdMsg.init, hid]
  simp only [ok_bind, hwon]

/-- **The battery** takes over a message's fields, whatever it held. -/
theorem MessageBattery.init_bytes (b : MessageBattery dm)
    {msg : ClientMessage dm} (h : msg.NameFits) {data : BinaryIStream}
    {tail : BufferT} (hdata : data.Before msg.bytes tail) :
    ∃ b', b.init data msg.code.code = .ok (msg.code, b') ∧
      b'.message msg.code = some msg := by
  cases msg with
  | registered msg =>
      obtain ⟨data', hinit⟩ :=
        GenericIdNameMsg.init_bytes b.userRegisteredMsg h hdata
      refine ⟨{ b with userRegisteredMsg := msg }, ?_, rfl⟩
      show b.init data ClientMessageCode.userRegistered.code = _
      rw [MessageBattery.init, if_pos rfl, hinit]
      rfl
  | renamed msg =>
      obtain ⟨data', hinit⟩ :=
        GenericIdNameMsg.init_bytes b.userRenamedMsg h hdata
      refine ⟨{ b with userRenamedMsg := msg }, ?_, rfl⟩
      show b.init data ClientMessageCode.userRenamed.code = _
      rw [MessageBattery.init, if_neg (by decide), if_pos rfl, hinit]
      rfl
  | connected msg =>
      obtain ⟨data', hinit⟩ := GenericIdMsg.init_bytes b.userConnectedMsg hdata
      refine ⟨{ b with userConnectedMsg := msg }, ?_, rfl⟩
      show b.init data ClientMessageCode.userConnected.code = _
      rw [MessageBattery.init, if_neg (by decide), if_neg (by decide),
        if_pos rfl, hinit]
      rfl
  | disconnected msg =>
      obtain ⟨data', hinit⟩ :=
        GenericIdMsg.init_bytes b.userDisconnectedMsg hdata
      refine ⟨{ b with userDisconnectedMsg := msg }, ?_, rfl⟩
      show b.init data ClientMessageCode.userDisconnected.code = _
      rw [MessageBattery.init, if_neg (by decide), if_neg (by decide),
        if_neg (by decide), if_pos rfl, hinit]
      rfl
  | dealWon msg =>
      obtain ⟨data', hinit⟩ := UserDealWonMsg.init_bytes b.userDealWonMsg hdata
      refine ⟨{ b with userDealWonMsg := msg }, ?_, rfl⟩
      show b.init data ClientMessageCode.userDealWon.code = _
      rw [MessageBattery.init, if_neg (by decide), if_neg (by decide),
        if_neg (by decide), if_neg (by decide), if_pos rfl, hinit]
      rfl

/-- **One message built**: the code and the fields that were sent, and the
stream right behind them. -/
theorem MessageBuilder.build_eq (builder : MessageBuilder dm)
    {msg : ClientMessage dm} (h : msg.NameFits) (tail : BufferT) :
    ∃ builder', builder.build (msg.frame ++ tail) =
        .ok (msg.code, builder', tail) ∧
      builder'.battery.message msg.code = some msg := by
  have hdata : ({ storage := msg.payload } : BinaryIStream).Before
      (Pod.encode msg.code.code ++ msg.bytes) [] := by
    refine ⟨Nat.zero_le _, ?_⟩
    rw [encode_uint8, List.append_nil]
    rfl
  obtain ⟨data', hcode, hfields⟩ := BinaryIStream.readPod_encode hdata
  obtain ⟨b', hinit, hmsg⟩ := builder.battery.init_bytes h hfields
  refine ⟨{ battery := b', bufferStorage := msg.payload }, ?_, hmsg⟩
  rw [build, ClientMessage.frame, receive_prefix _ _ (ClientMessage.length_payload h)]
  simp only [ok_bind, hcode, hinit]

/-! ## §4  A session's messages -/

theorem sendMessages_eq {msgs : List (ClientMessage dm)}
    {buffer : BinaryOStream} (hnames : ∀ msg ∈ msgs, msg.NameFits)
    (hbuffer : 2 ≤ buffer.storage.length) :
    sendMessages 2 buffer msgs = .ok (msgs.flatMap ClientMessage.frame) := by
  induction msgs generalizing buffer with
  | nil => rfl
  | cons msg msgs ih =>
      obtain ⟨hmsg, hmsgs⟩ := List.forall_mem_cons.mp hnames
      obtain ⟨buffer', hsend, hstorage⟩ := sendMessage_eq hbuffer hmsg
      have hbuffer' : 2 ≤ buffer'.storage.length := by
        rw [hstorage, ClientMessage.frame, List.length_append,
          length_sizePrefix]
        exact Nat.le_add_right _ _
      rw [sendMessages, hsend, ok_bind, ih hmsgs hbuffer', ok_bind, hstorage]
      rfl

theorem builds_frames {msgs : List (ClientMessage dm)}
    (builder : MessageBuilder dm) (hnames : ∀ msg ∈ msgs, msg.NameFits) :
    builder.builds (msgs.flatMap ClientMessage.frame) msgs.length =
      .ok (msgs.map fun msg => (msg.code, some msg), []) := by
  induction msgs generalizing builder with
  | nil => rfl
  | cons msg msgs ih =>
      obtain ⟨hmsg, hmsgs⟩ := List.forall_mem_cons.mp hnames
      obtain ⟨builder', hbuild, hbuilt⟩ :=
        builder.build_eq hmsg (msgs.flatMap ClientMessage.frame)
      rw [List.length_cons, MessageBuilder.builds, List.flatMap_cons, hbuild]
      simp only [ok_bind, ih builder' hmsgs, hbuilt]
      rfl

/-- The handshake of a client that speaks the service's version. -/
theorem launch_handshake (stream : BufferT) :
    launch (clientLaunch ++ stream) = (.ok stream, []) := by
  let payload : BufferT :=
    ClientMessageCode.handshake.code :: Pod.encode version
  have hbytes : clientLaunch = sizePrefix (payload.length + 2) ++ payload := rfl
  have hreceive : receive (clientLaunch ++ stream) [] =
      .ok ({ storage := payload }, stream) := by
    rw [hbytes]
    exact receive_prefix stream [] (by decide)
  have hread : readHandshake { storage := payload } = .ok ⟨version⟩ := rfl
  rw [launch, hreceive]
  simp only [hread]
  rfl

/-- **The client's stream**, read back: the handshake is accepted, and `build`
returns every message that was sent, in order and with its fields, up to the
end of the stream. -/
theorem clientStream_builds {msgs : List (ClientMessage dm)}
    (hnames : ∀ msg ∈ msgs, msg.NameFits) :
    ∃ stream rest, clientStream msgs = .ok stream ∧
      launch stream = (.ok rest, []) ∧
      ({} : MessageBuilder dm).builds rest msgs.length =
        .ok (msgs.map fun msg => (msg.code, some msg), []) := by
  refine ⟨clientLaunch ++ msgs.flatMap ClientMessage.frame, _, ?_,
    launch_handshake _, builds_frames {} hnames⟩
  have hpos : createAdaptedMessageBuffer.getPos = 2 := rfl
  rw [clientStream, hpos, sendMessages_eq hnames (by decide), ok_bind]

/-- A name, a shorter one in its place, and messages of other kinds. -/
def someMessages : List (ClientMessage .lp64) :=
  [.registered ⟨⟨7⟩, [65, 110, 110]⟩, .renamed ⟨⟨7⟩, [66]⟩, .connected ⟨7⟩,
    .dealWon ⟨⟨7⟩, 100⟩]

theorem someMessages_builds :
    ∃ stream rest, clientStream someMessages = .ok stream ∧
      launch stream = (.ok rest, []) ∧
      ({} : MessageBuilder .lp64).builds rest 4 =
        .ok (someMessages.map fun msg => (msg.code, some msg), []) := by
  have hnames : ∀ msg ∈ someMessages, msg.NameFits := by
    simp [someMessages, ClientMessage.NameFits]
  exact clientStream_builds hnames

end RatingService
