import RatingService.Utils.BinaryStorage

/-!
# The protocol

`ipc/protocol.h`, built with `PASS_NAMES_AROUND` as `CMakeLists.txt` does:
the numeric constants, the client's messages, the service's error messages
and the rating pack. A message's `store` writes into a `BinaryOStream`; its
`init` reads over the fields the object already has, as the code does with
its reused message objects.

`long` is the only type whose width the code leaves to the platform; the
model is stated over both data models the sources are built for.

- §1: types and constants.
- §2: the client's messages.
- §3: the error messages.
- §4: the rating pack.
-/

namespace RatingService

open PodCodec

/-! ## §1  Types and constants -/

/-- The width of `long`: 4 bytes with MinGW-w64, 8 on Linux. -/
inductive DataModel where
  | llp64
  | lp64
deriving DecidableEq, Repr

def DataModel.sizeofLong : DataModel → ℕ
  | .llp64 => 4
  | .lp64 => 8

theorem DataModel.sizeofLong_le (dm : DataModel) : dm.sizeofLong ≤ 8 := by
  cases dm <;> simp [sizeofLong]

abbrev IdT := Int32
abbrev MessageCodeT := UInt8
abbrev ErrorCodeT := UInt32
abbrev ProtocolVersionT := UInt32
abbrev MonetaryT (dm : DataModel) := BitVec (8 * dm.sizeofLong)
instance monetaryZero (dm : DataModel) : Zero (MonetaryT dm) := ⟨0⟩
abbrev MessageSizeT := UInt16

namespace ProtocolConstants

def version : ProtocolVersionT := 1
def invalidVersion : ProtocolVersionT := 0
def invalidUserId : IdT := -1

inductive ClientMessageCode where
  | handshake
  | userRegistered
  | userRenamed
  | userDealWon
  | userConnected
  | userDisconnected
deriving DecidableEq, Repr

def ClientMessageCode.code : ClientMessageCode → MessageCodeT
  | .handshake => 111
  | .userRegistered => 1
  | .userRenamed => 2
  | .userDealWon => 3
  | .userConnected => 4
  | .userDisconnected => 5

inductive ServiceMessageCode where
  | protocolError
  | userRating
deriving DecidableEq, Repr

def ServiceMessageCode.code : ServiceMessageCode → MessageCodeT
  | .protocolError => 1
  | .userRating => 2

inductive ProtocolError where
  | protocolVersionUnsupported
  | userUnrecognized
  | multipleRegistration
deriving DecidableEq, Repr

def ProtocolError.code : ProtocolError → ErrorCodeT
  | .protocolVersionUnsupported => 1
  | .userUnrecognized => 2
  | .multipleRegistration => 3

def topPositions : ℤ := 10

def competitionDistance : ℤ := 10

end ProtocolConstants

open ProtocolConstants

/-! ## §2  Client messages -/

structure HandshakeMsg where
  protoVersion : ProtocolVersionT := invalidVersion

def HandshakeMsg.init (_ : HandshakeMsg) (buffer : BinaryIStream) :
    Outcome (HandshakeMsg × BinaryIStream) := do
  let (protoVersion, buffer) ← buffer.readPod ProtocolVersionT
  .ok (⟨protoVersion⟩, buffer)

def HandshakeMsg.store (msg : HandshakeMsg) (buffer : BinaryOStream) :
    BinaryOStream :=
  buffer.writePod msg.protoVersion

structure GenericIdMsg where
  userId : IdT := invalidUserId
deriving DecidableEq

def GenericIdMsg.init (_ : GenericIdMsg) (buffer : BinaryIStream) :
    Outcome (GenericIdMsg × BinaryIStream) := do
  let (userId, buffer) ← buffer.readPod IdT
  .ok (⟨userId⟩, buffer)

def GenericIdMsg.store (msg : GenericIdMsg) (buffer : BinaryOStream) :
    BinaryOStream :=
  buffer.writePod msg.userId

structure GenericIdNameMsg extends GenericIdMsg where
  userName : BufferT := []
deriving DecidableEq

def GenericIdNameMsg.init (msg : GenericIdNameMsg) (buffer : BinaryIStream) :
    Outcome (GenericIdNameMsg × BinaryIStream) := do
  let (idMsg, buffer) ← msg.toGenericIdMsg.init buffer
  let (userName, buffer) ← buffer.readBuffer msg.userName
  .ok (⟨idMsg, userName⟩, buffer)

def GenericIdNameMsg.store (msg : GenericIdNameMsg) (buffer : BinaryOStream) :
    Outcome BinaryOStream :=
  (msg.toGenericIdMsg.store buffer).writeBuffer msg.userName

structure UserDealWonMsg (dm : DataModel) extends GenericIdMsg where
  winnings : MonetaryT dm := 0
deriving DecidableEq

def UserDealWonMsg.init {dm : DataModel} (msg : UserDealWonMsg dm)
    (buffer : BinaryIStream) :
    Outcome (UserDealWonMsg dm × BinaryIStream) := do
  let (idMsg, buffer) ← msg.toGenericIdMsg.init buffer
  let (winnings, buffer) ← buffer.readPod (MonetaryT dm)
  .ok (⟨idMsg, winnings⟩, buffer)

def UserDealWonMsg.store {dm : DataModel} (msg : UserDealWonMsg dm)
    (buffer : BinaryOStream) : BinaryOStream :=
  (msg.toGenericIdMsg.store buffer).writePod msg.winnings

abbrev UserRegisteredMsg := GenericIdNameMsg
abbrev UserRenamedMsg := GenericIdNameMsg
abbrev UserConnectedMsg := GenericIdMsg
abbrev UserDisconnectedMsg := GenericIdMsg

/-- A message of the client after the handshake, of any kind. -/
inductive ClientMessage (dm : DataModel) where
  | registered (msg : UserRegisteredMsg)
  | renamed (msg : UserRenamedMsg)
  | connected (msg : UserConnectedMsg)
  | disconnected (msg : UserDisconnectedMsg)
  | dealWon (msg : UserDealWonMsg dm)
deriving DecidableEq

namespace ClientMessage

variable {dm : DataModel}

def code : ClientMessage dm → ClientMessageCode
  | .registered _ => .userRegistered
  | .renamed _ => .userRenamed
  | .connected _ => .userConnected
  | .disconnected _ => .userDisconnected
  | .dealWon _ => .userDealWon

def userId : ClientMessage dm → IdT
  | .registered msg => msg.userId
  | .renamed msg => msg.userId
  | .connected msg => msg.userId
  | .disconnected msg => msg.userId
  | .dealWon msg => msg.userId

def store : ClientMessage dm → BinaryOStream → Outcome BinaryOStream
  | .registered msg, buffer => msg.store buffer
  | .renamed msg, buffer => msg.store buffer
  | .connected msg, buffer => .ok (msg.store buffer)
  | .disconnected msg, buffer => .ok (msg.store buffer)
  | .dealWon msg, buffer => .ok (msg.store buffer)

end ClientMessage

/-- `UserMsgCodePrefixer<MessageType>::prefix`, the message type given by its
code. -/
def userMsgCodePrefix (code : ClientMessageCode) (buffer : BinaryOStream) :
    BinaryOStream :=
  buffer.writePod code.code

/-! ## §3  Error messages -/

/-- `GenericProtocolError` and the classes derived from it. -/
inductive GenericProtocolError where
  | userUnrecognized (userId : IdT)
  | multipleRegistration (userId : IdT)
  | unsupportedProtocolVersion (expectedVersion : ProtocolVersionT)
deriving DecidableEq, Repr

namespace GenericProtocolError

def getErrorCode : GenericProtocolError → ProtocolError
  | .userUnrecognized _ => .userUnrecognized
  | .multipleRegistration _ => .multipleRegistration
  | .unsupportedProtocolVersion _ => .protocolVersionUnsupported

/-- The version error writes the version the service speaks, not the one the
object holds. -/
def store (error : GenericProtocolError) (buffer : BinaryOStream) :
    BinaryOStream :=
  let buffer := buffer.writePod error.getErrorCode.code
  match error with
  | .userUnrecognized userId => buffer.writePod userId
  | .multipleRegistration userId => buffer.writePod userId
  | .unsupportedProtocolVersion _ => buffer.writePod version

end GenericProtocolError

/-! ## §4  The rating pack -/

structure RatingEntry (dm : DataModel) where
  id : IdT := 0
  name : BufferT := []
  winnings : MonetaryT dm := 0
deriving DecidableEq

/-- `StorageBuilder::storePackHeader`; the two `int`s are four bytes each. -/
def storePackHeader (buffer : BinaryOStream) (id : IdT)
    (ratingLength ratingPos : ℤ) : BinaryOStream :=
  ((buffer.writePod id).writePod (Int32.ofInt ratingLength)).writePod
    (Int32.ofInt ratingPos)

def storePackEntry {dm : DataModel} (buffer : BinaryOStream) (id : IdT)
    (winnings : MonetaryT dm) (name : BufferT) : Outcome BinaryOStream := do
  assert (name.length ≤ 255)
  ((buffer.writePod id).writePod winnings).writeBuffer name

structure RatingPackMessage (dm : DataModel) where
  userId : IdT := invalidUserId
  ratingLength : Int32 := 0
  ratingPos : Int32 := 0
  ratings : List (RatingEntry dm) := []

namespace RatingPackMessage

variable {dm : DataModel}

/-- The decoder's entry count: the top positions, the competition above, and
the competition below with the user himself. -/
def ratingEntryCount (ratingLength ratingPos : ℤ) : ℤ :=
  min topPositions ratingPos +
    (if ratingPos > topPositions then
      min (ratingPos - topPositions) competitionDistance else 0) +
    min (ratingLength - ratingPos) (competitionDistance + 1)

/-- The entry loop of `init`, over the entries the vector has after its
`resize`. -/
def initEntries : List (RatingEntry dm) → BinaryIStream →
    Outcome (List (RatingEntry dm) × BinaryIStream)
  | [], buffer => .ok ([], buffer)
  | old :: olds, buffer => do
      let (id, buffer) ← buffer.readPod IdT
      let (winnings, buffer) ← buffer.readPod (MonetaryT dm)
      let (name, buffer) ← buffer.readBuffer old.name
      let (entries, buffer) ← initEntries olds buffer
      .ok (⟨id, name, winnings⟩ :: entries, buffer)

def init (msg : RatingPackMessage dm) (buffer : BinaryIStream) :
    Outcome (RatingPackMessage dm × BinaryIStream) := do
  let (userId, buffer) ← buffer.readPod IdT
  let (ratingLength, buffer) ← buffer.readPod Int32
  let (ratingPos, buffer) ← buffer.readPod Int32
  assert (0 ≤ ratingLength.toInt ∧ 0 ≤ ratingPos.toInt ∧
    ratingPos.toInt ≤ ratingLength.toInt)
  let count := (ratingEntryCount ratingLength.toInt ratingPos.toInt).toNat
  let resized := msg.ratings.take count ++
    List.replicate (count - msg.ratings.length) {}
  let (ratings, buffer) ← initEntries resized buffer
  .ok (⟨userId, ratingLength, ratingPos, ratings⟩, buffer)

end RatingPackMessage

end RatingService
