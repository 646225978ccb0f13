import RatingService.Ipc.Protocol
import Mathlib.Data.List.AList
import Mathlib.Data.Finset.Basic
import Std.Data.TreeMap.Lemmas

/-!
# Core data

`service/core_data.h`: the two user tables, the rating vector, the
announcement buckets and the incoming data buffer.

The active users' table owns its `FullUserData` objects (`unique_ptr`), so
the model keeps each object in the table itself. A raw `FullUserData*` is a
`UserRef`: the id its object was allocated for and the allocation's serial
number. It leads to an object as long as the table owns one with that serial
under that id (`deref`); a pointer kept past its object's life leads nowhere,
since no serial is ever used again.

- §1: basic types.
- §2: the tables.
- §3: the incoming data.
-/

namespace RatingService

open ProtocolConstants

/-! ## §1  Basic types -/

-- for the literals of `Fin 1`, `Fin 2` and `Fin 60`
instance oneNeZero : NeZero 1 := ⟨Nat.one_ne_zero⟩
instance twoNeZero : NeZero 2 := ⟨Nat.succ_ne_zero 1⟩
instance sixtyNeZero : NeZero 60 := ⟨Nat.succ_ne_zero 59⟩

/-- `connect_time_t`. -/
abbrev ConnectTimeT := UInt8

def invalidSecond : ConnectTimeT := 60

/-- `UserDataConstants::invalidId`. -/
def invalidId : IdT := invalidUserId

def invalidRating : ℤ := -1

/-- A stored connection second: below 60, or `invalidSecond`. This is what
the assertion of `processConnectionChanges` lets into the tables. -/
abbrev StoredSecond := { s : ConnectTimeT // s < 60 ∨ s = invalidSecond }

def StoredSecond.invalid : StoredSecond := ⟨invalidSecond, Or.inr rfl⟩

def StoredSecond.bucket (s : StoredSecond) (h : s.val < 60) : Fin 60 :=
  ⟨s.val.toNat, h⟩

structure BasicUserData where
  secondConnected : StoredSecond := .invalid
  name : BufferT := []

/-- `serial` is the object's identity, the rest are the fields of the code. -/
structure FullUserData (dm : DataModel) extends BasicUserData where
  id : IdT := invalidId
  amountWon : MonetaryT dm := 0
  rating : ℤ := invalidRating
  serial : ℕ

/-- A raw pointer to a `FullUserData`. -/
structure UserRef where
  owner : IdT
  serial : ℕ
deriving DecidableEq, Repr

/-- `nullptr`: serials of objects start at 1. -/
def UserRef.null : UserRef := ⟨invalidId, 0⟩

/-- `static_cast<int>` of a container's size. -/
def toInt (n : ℕ) : ℤ := Int.bmod n (2 ^ 32)

/-- The value of an `int` after an operation. -/
def wrapInt (i : ℤ) : ℤ := Int.bmod i (2 ^ 32)

theorem wrapInt_of_lt {i : ℤ} (hlow : -2 ^ 31 ≤ i) (hhigh : i < 2 ^ 31) :
    wrapInt i = i := by
  rw [wrapInt, Int.bmod_eq_of_le] <;> omega

theorem toInt_of_lt {n : ℕ} (h : n < 2 ^ 31) : toInt n = n := by
  unfold toInt
  rw [Int.bmod_eq_of_le] <;> omega

/-! ## §2  The tables -/

/-- `std::unordered_map`: the entries in the order a loop meets them. -/
abbrev UnorderedMap (V : Type) := AList fun _ : IdT => V

/-- `unordered_map::emplace`: an entry that is there stays as it is. -/
def UnorderedMap.emplace {V : Type} (m : UnorderedMap V) (k : IdT) (v : V) :
    UnorderedMap V :=
  if (m.lookup k).isSome then m else m.insert k v

abbrev SilentUsersMap := UnorderedMap BasicUserData
abbrev ActiveUsersMap (dm : DataModel) := UnorderedMap (FullUserData dm)
abbrev RatingVector := List UserRef

structure CoreRatingData (dm : DataModel) where
  silentUsers : SilentUsersMap := ∅
  activeUsers : ActiveUsersMap dm := ∅
  rating : RatingVector := []
  /-- the serial of the next `new FullUserData` -/
  nextSerial : ℕ := 1

/-- `usersOnline`: a set of pointers for every second of the minute. -/
structure IterationData where
  usersOnline : Fin 60 → Finset UserRef := fun _ => ∅

namespace CoreRatingData

variable {dm : DataModel}

def deref (d : CoreRatingData dm) (p : UserRef) : Option (FullUserData dm) :=
  (d.activeUsers.lookup p.owner).filter fun u => u.serial = p.serial

def load (d : CoreRatingData dm) (p : UserRef) : Outcome (FullUserData dm) :=
  match d.deref p with
  | some u => .ok u
  | none => .error .danglingAccess

def modify (d : CoreRatingData dm) (p : UserRef)
    (f : FullUserData dm → FullUserData dm) : Outcome (CoreRatingData dm) := do
  let u ← d.load p
  .ok { d with activeUsers := d.activeUsers.insert p.owner (f u) }

end CoreRatingData

/-- The pointer `unique_ptr::get` returns for an object in the table. -/
def FullUserData.ref {dm : DataModel} (key : IdT) (u : FullUserData dm) :
    UserRef :=
  ⟨key, u.serial⟩

/-! ## §3  Incoming data -/

abbrev ConnectionsMap := Std.TreeMap IdT ConnectTimeT
abbrev UserNameMap := Std.TreeMap IdT BufferT
abbrev DealsMap (dm : DataModel) := Std.TreeMap IdT (MonetaryT dm)

/-- `IncomingDataBuffer`; its `bufferWriterCount` belongs to the handshake
between the listener and the calculator and is modelled there. -/
structure IncomingDataBuffer (dm : DataModel) where
  usersRegistered : UserNameMap := ∅
  usersRenamed : UserNameMap := ∅
  connectionChanges : ConnectionsMap := ∅
  dealsWon : DealsMap dm := ∅

end RatingService
