import RatingService.Framework.PodCodec

/-!
# Byte buffers and the binary streams

`utils/types.h` and `utils/binary_storage.h`: the byte vector, the stream
that reads plain values and short byte buffers out of one, and the stream
that writes them, with the ways a piece of the service can fail.

Containers sizes are `ℕ`; what `size_t` arithmetic does below zero is written
out where the code subtracts (`sizeSub`).

- §1: failures.
- §2: buffers.
- §3: the stream that reads.
- §4: the stream that writes.
-/

namespace RatingService

open PodCodec

/-! ## §1  Failures -/

/-- What the service's code throws. `stdException` stands for every class
derived from `std::exception`; `literal` is the string literal thrown by the
handshake. -/
inductive Thrown where
  | storageUnderflow
  | transportErrorRecoverable
  | messageCodeUnrecognized (code : UInt8)
  | literal
  | stdException
deriving DecidableEq, Repr

/-- How a piece of code ends when it does not return: by an exception, by a
failed `assert`, by reaching an object through a pointer that no live object
has, or by leaving the bounds of an array. -/
inductive Failure where
  | thrown (e : Thrown)
  | assertion
  | danglingAccess
  | outOfBounds
deriving DecidableEq, Repr

abbrev Outcome := Except Failure

@[simp] theorem ok_bind {α β : Type} (a : α) (f : α → Outcome β) :
    (Except.ok a >>= f) = f a := rfl

@[simp] theorem error_bind {α β : Type} (e : Failure) (f : α → Outcome β) :
    (Except.error e >>= f) = .error e := rfl

@[simp] theorem pure_eq_ok {α : Type} (a : α) :
    (pure a : Outcome α) = .ok a := rfl

theorem bind_eq_ok {α β : Type} {x : Outcome α} {f : α → Outcome β} {b : β} :
    (x >>= f) = .ok b ↔ ∃ a, x = .ok a ∧ f a = .ok b := by
  cases x with
  | ok a => simp
  | error e => simp

/-- `assert(b)`. -/
def assert (b : Prop) [Decidable b] : Outcome Unit :=
  if b then .ok () else .error .assertion

theorem assert_of {b : Prop} [Decidable b] (h : b) : assert b = .ok () :=
  if_pos h

theorem assert_not {b : Prop} [Decidable b] (h : ¬ b) :
    assert b = .error .assertion :=
  if_neg h

/-! ## §2  Buffers -/

/-- `buffer_t`. -/
abbrev BufferT := List UInt8

/-- Subtraction of two `size_t`: below zero it wraps. -/
def sizeSub (a b : ℕ) : ℕ := if b ≤ a then a - b else 2 ^ 64 + a - b

theorem sizeSub_of_le {a b : ℕ} (h : b ≤ a) : sizeSub a b = a - b := if_pos h

/-- `std::vector::resize`: new bytes are zero. -/
def resize (b : BufferT) (n : ℕ) : BufferT :=
  b.take n ++ List.replicate (n - b.length) 0

/-- `memcpy` of `bytes` into `b` at `pos`. -/
def memcpyAt (b : BufferT) (pos : ℕ) (bytes : BufferT) : BufferT :=
  b.take pos ++ bytes ++ b.drop (pos + bytes.length)

theorem resize_of_le {b : BufferT} {n : ℕ} (h : n ≤ b.length) :
    resize b n = b.take n := by
  rw [resize, Nat.sub_eq_zero_of_le h, List.replicate_zero, List.append_nil]

@[simp] theorem length_resize (b : BufferT) (n : ℕ) :
    (resize b n).length = n := by
  simp only [resize, List.length_append, List.length_take, List.length_replicate]
  omega

theorem memcpyAt_zero {b bytes : BufferT} (h : b.length = bytes.length) :
    memcpyAt b 0 bytes = bytes := by
  simp [memcpyAt, List.drop_eq_nil_of_le (Nat.le_of_eq h)]

/-- Growing a buffer up to the end of what is then copied into it adds
nothing to the copy. -/
theorem memcpyAt_resize {b bytes : BufferT} {pos n : ℕ} (hpos : pos ≤ b.length)
    (hle : b.length ≤ n) (hn : n = pos + bytes.length) :
    memcpyAt (resize b n) pos bytes = memcpyAt b pos bytes := by
  subst hn
  have hlen := length_resize b (pos + bytes.length)
  have htake : (resize b (pos + bytes.length)).take pos = b.take pos := by
    rw [resize, List.take_append_of_le_length (by
      rw [List.length_take]; omega), List.take_take]
    congr 1
    omega
  rw [memcpyAt, memcpyAt, htake, List.drop_eq_nil_of_le (by omega),
    List.drop_eq_nil_of_le (by omega)]

theorem memcpyAt_middle (front tail : BufferT) {old bytes : BufferT}
    (h : bytes.length = old.length) :
    memcpyAt (front ++ old ++ tail) front.length bytes =
      front ++ bytes ++ tail := by
  have hfront : (front ++ old ++ tail).take front.length = front := by
    rw [List.append_assoc, List.take_left]
  have htail : (front ++ old ++ tail).drop (front.length + bytes.length) =
      tail := by
    rw [h, ← List.length_append, List.drop_left]
  rw [memcpyAt, hfront, htail]

theorem length_memcpyAt {b bytes : BufferT} {pos : ℕ} (h : pos ≤ b.length) :
    (memcpyAt b pos bytes).length = max b.length (pos + bytes.length) := by
  simp only [memcpyAt, List.length_append, List.length_take, List.length_drop]
  omega

theorem memcpyAt_end (b bytes : BufferT) :
    memcpyAt b b.length bytes = b ++ bytes := by
  rw [memcpyAt, List.take_length, List.drop_eq_nil_of_le (Nat.le_add_right _ _),
    List.append_nil]

/-! ## §3  Reading -/

structure BinaryIStream where
  curPos : ℕ := 0
  storage : BufferT

namespace BinaryIStream

/-- `operator>> (POD&)`. -/
def readPod (α : Type) [Pod α] (s : BinaryIStream) :
    Outcome (α × BinaryIStream) :=
  if sizeSub s.storage.length s.curPos < Pod.sizeof α then
    .error (.thrown .storageUnderflow)
  else
    .ok (Pod.decode ((s.storage.drop s.curPos).take (Pod.sizeof α)),
      { s with curPos := s.curPos + Pod.sizeof α })

/-- `operator>> (buffer_t&)`: the bytes are copied over those `data` held. -/
def readBuffer (s : BinaryIStream) (data : BufferT) :
    Outcome (BufferT × BinaryIStream) := do
  let (size, s) ← s.readPod UInt8
  let data := resize data size.toNat
  if sizeSub s.storage.length s.curPos < size.toNat then
    .error (.thrown .storageUnderflow)
  else
    .ok (memcpyAt data 0 ((s.storage.drop s.curPos).take size.toNat),
      { s with curPos := s.curPos + size.toNat })

def rest (s : BinaryIStream) : BufferT := s.storage.drop s.curPos

/-- `s` stands right before `bytes`, and they are followed by `tail`. -/
structure Before (s : BinaryIStream) (bytes tail : BufferT) : Prop where
  le : s.curPos ≤ s.storage.length
  rest : s.rest = bytes ++ tail

theorem Before.append_nil {s : BinaryIStream} {bytes tail : BufferT}
    (h : s.Before bytes tail) : s.Before (bytes ++ []) tail :=
  ⟨h.le, by rw [h.rest, List.append_nil]⟩

theorem Before.atEnd {s : BinaryIStream} (h : s.Before [] []) :
    s.curPos = s.storage.length :=
  le_antisymm h.le (List.drop_eq_nil_iff.mp h.rest)

theorem Before.advance {s : BinaryIStream} {bytes tail : BufferT}
    (h : s.Before bytes tail) :
    ({ s with curPos := s.curPos + bytes.length } : BinaryIStream).Before
      [] tail := by
  have hlen := congrArg List.length h.rest
  have hle := h.le
  simp only [BinaryIStream.rest, List.length_drop, List.length_append] at hlen
  constructor
  · show s.curPos + bytes.length ≤ s.storage.length
    omega
  · show s.storage.drop (s.curPos + bytes.length) = [] ++ tail
    rw [← List.drop_drop, ← BinaryIStream.rest, h.rest, List.drop_left,
      List.nil_append]

theorem Before.length_le {s : BinaryIStream} {bytes tail : BufferT}
    (h : s.Before bytes tail) :
    bytes.length ≤ sizeSub s.storage.length s.curPos := by
  have hlen := congrArg List.length h.rest
  simp only [BinaryIStream.rest, List.length_drop, List.length_append] at hlen
  rw [sizeSub_of_le h.le]
  omega

/-- **Reading undoes writing**, for a plain value. -/
theorem readPod_encode {α : Type} [Pod α] {s : BinaryIStream} {a : α}
    {bytes tail : BufferT} (h : s.Before (Pod.encode a ++ bytes) tail) :
    ∃ s', s.readPod α = .ok (a, s') ∧ s'.Before bytes tail := by
  have h₁ : s.Before (Pod.encode a) (bytes ++ tail) :=
    ⟨h.le, by rw [h.rest, List.append_assoc]⟩
  have hle := h₁.length_le
  have hadv := h₁.advance
  rw [Pod.length_encode] at hle hadv
  refine ⟨{ s with curPos := s.curPos + Pod.sizeof α }, ?_, hadv.le, hadv.rest⟩
  have htake : (Pod.encode a ++ (bytes ++ tail)).take (Pod.sizeof α) =
      Pod.encode a := by
    rw [← Pod.length_encode a, List.take_left]
  rw [readPod, if_neg (Nat.not_lt.mpr hle), ← BinaryIStream.rest, h₁.rest,
    htake, Pod.decode_encode]

/-- **Reading undoes writing**, for a short byte buffer: whatever the buffer
read into held before. -/
theorem readBuffer_encode {s : BinaryIStream} {name bytes tail : BufferT}
    (data : BufferT) (hname : name.length ≤ 255)
    (h : s.Before (UInt8.ofNat name.length :: name ++ bytes) tail) :
    ∃ s', s.readBuffer data = .ok (name, s') ∧ s'.Before bytes tail := by
  have hsize : (UInt8.ofNat name.length).toNat = name.length := by
    rw [UInt8.toNat_ofNat']
    omega
  have hsz : s.Before (Pod.encode (UInt8.ofNat name.length) ++
      (name ++ bytes)) tail := by
    rw [encode_uint8]
    exact h
  obtain ⟨s₁, hread, h₁⟩ := readPod_encode hsz
  have h₂ : s₁.Before name (bytes ++ tail) :=
    ⟨h₁.le, by rw [h₁.rest, List.append_assoc]⟩
  have hadv := h₂.advance
  refine ⟨{ s₁ with curPos := s₁.curPos + name.length }, ?_, hadv.le, hadv.rest⟩
  rw [readBuffer, hread]
  simp only [ok_bind, hsize]
  rw [if_neg (Nat.not_lt.mpr h₂.length_le), ← BinaryIStream.rest, h₂.rest,
    List.take_left, memcpyAt_zero (length_resize _ _)]

theorem readPod_error {α : Type} [Pod α] {s : BinaryIStream} {e : Failure}
    (h : s.readPod α = .error e) : e = .thrown .storageUnderflow := by
  rw [readPod] at h
  split at h <;> cases h
  rfl

theorem readBuffer_error {s : BinaryIStream} {data : BufferT} {e : Failure}
    (h : s.readBuffer data = .error e) : e = .thrown .storageUnderflow := by
  rw [readBuffer] at h
  cases hsize : s.readPod UInt8 with
  | error e' =>
      rw [hsize] at h
      cases h
      exact readPod_error hsize
  | ok p =>
      rw [hsize, ok_bind] at h
      dsimp only at h
      split at h <;> cases h
      rfl

/-- **What is read** stands in the storage, for a plain value. -/
theorem readPod_of_ok {α : Type} [Pod α] [CompletePod α] {s s' : BinaryIStream}
    {a : α} (hle : s.curPos ≤ s.storage.length)
    (h : s.readPod α = .ok (a, s')) :
    s.rest = Pod.encode a ++ s'.rest ∧ s'.curPos ≤ s'.storage.length := by
  rw [readPod, sizeSub_of_le hle] at h
  split at h
  · cases h
  · next hsize =>
    cases h
    refine ⟨?_, by dsimp only; omega⟩
    rw [CompletePod.encode_decode, rest, rest, ← List.drop_drop]
    · exact (List.take_append_drop _ _).symm
    · rw [List.length_take, List.length_drop]
      omega

/-- **What is read** stands in the storage, for a short byte buffer. -/
theorem readBuffer_of_ok {s s' : BinaryIStream} {data name : BufferT}
    (hle : s.curPos ≤ s.storage.length)
    (h : s.readBuffer data = .ok (name, s')) :
    s.rest = UInt8.ofNat name.length :: name ++ s'.rest ∧
      name.length ≤ 255 := by
  rw [readBuffer] at h
  obtain ⟨⟨size, s₁⟩, hsize, h⟩ := bind_eq_ok.mp h
  obtain ⟨hrest, hle₁⟩ := readPod_of_ok hle hsize
  have hlt := size.toNat_lt
  dsimp only at h
  rw [sizeSub_of_le hle₁] at h
  split at h
  · cases h
  · next hroom =>
    cases h
    have hlen : ((s₁.storage.drop s₁.curPos).take size.toNat).length =
        size.toNat := by
      rw [List.length_take, List.length_drop]
      omega
    rw [memcpyAt_zero ((length_resize _ _).trans hlen.symm), hlen]
    refine ⟨?_, by omega⟩
    rw [hrest, encode_uint8, UInt8.ofNat_toNat, rest, rest, ← List.drop_drop]
    exact congrArg (size :: ·) (List.take_append_drop _ _).symm

end BinaryIStream

/-! ## §4  Writing -/

structure BinaryOStream where
  curPos : ℕ := 0
  storage : BufferT := []

namespace BinaryOStream

def getPos (s : BinaryOStream) : ℕ := s.curPos

def setPos (s : BinaryOStream) (newPos : ℕ) : Bool × BinaryOStream :=
  if newPos > s.storage.length then (false, s)
  else (true, { s with curPos := newPos })

def rewind (s : BinaryOStream) (pos : ℕ) : Bool × BinaryOStream :=
  if pos > s.storage.length then (false, s)
  else (true, { storage := resize s.storage pos, curPos := pos })

def grow (s : BinaryOStream) (n : ℕ) : BinaryOStream :=
  if sizeSub s.storage.length s.curPos < n then
    { s with storage := resize s.storage (s.curPos + n) }
  else s

/-- The `memcpy` both writing operators end with. -/
def copyIn (s : BinaryOStream) (bytes : BufferT) : BinaryOStream :=
  { storage := memcpyAt s.storage s.curPos bytes
    curPos := s.curPos + bytes.length }

/-- `operator<< (POD)`. -/
def writePod {α : Type} [Pod α] (s : BinaryOStream) (a : α) : BinaryOStream :=
  (s.grow (Pod.sizeof α)).copyIn (Pod.encode a)

/-- `operator<< (const buffer_t&)`. -/
def writeBuffer (s : BinaryOStream) (data : BufferT) :
    Outcome BinaryOStream := do
  assert (data.length ≤ 255)
  let size := UInt8.ofNat data.length
  let s := s.grow (size.toNat + 1)
  .ok ((s.writePod size).copyIn (data.take size.toNat))

def Valid (s : BinaryOStream) : Prop := s.curPos ≤ s.storage.length

theorem copyIn_valid {s : BinaryOStream} (h : s.Valid) (bytes : BufferT) :
    (s.copyIn bytes).Valid := by
  show s.curPos + bytes.length ≤ (memcpyAt _ _ _).length
  rw [length_memcpyAt h]
  omega

theorem grow_copyIn {s : BinaryOStream} (h : s.Valid) (bytes : BufferT) {n : ℕ}
    (hn : n = bytes.length) : (s.grow n).copyIn bytes = s.copyIn bytes := by
  have hv : s.curPos ≤ s.storage.length := h
  unfold grow
  split
  · rename_i hlt
    rw [sizeSub_of_le hv] at hlt
    unfold copyIn
    rw [memcpyAt_resize hv (by omega) (by rw [hn])]
  · rfl

theorem copyIn_copyIn {s : BinaryOStream} (h : s.Valid) (a b : BufferT) :
    (s.copyIn a).copyIn b = s.copyIn (a ++ b) := by
  have hv : s.curPos ≤ s.storage.length := h
  have hpos : (s.storage.take s.curPos ++ a).length = s.curPos + a.length := by
    rw [List.length_append, List.length_take]
    omega
  have htake : (memcpyAt s.storage s.curPos a).take (s.curPos + a.length) =
      s.storage.take s.curPos ++ a := by
    rw [memcpyAt, ← hpos, List.take_left]
  have hdrop : (memcpyAt s.storage s.curPos a).drop
      (s.curPos + a.length + b.length) =
      s.storage.drop (s.curPos + a.length + b.length) := by
    rw [memcpyAt, ← hpos, List.drop_length_add_append, List.drop_drop]
  simp only [copyIn, memcpyAt, List.length_append, ← Nat.add_assoc] at htake hdrop ⊢
  rw [htake, hdrop]
  simp only [List.append_assoc]

/-- **Writing a plain value** copies its bytes in at the position. -/
theorem writePod_eq {α : Type} [Pod α] {s : BinaryOStream} (h : s.Valid)
    (a : α) : s.writePod a = s.copyIn (Pod.encode a) :=
  grow_copyIn h _ (Pod.length_encode a).symm

/-- **Writing a short buffer** copies its length byte and its bytes in. -/
theorem writeBuffer_eq {s : BinaryOStream} (h : s.Valid) {data : BufferT}
    (hd : data.length ≤ 255) :
    s.writeBuffer data =
      .ok (s.copyIn (UInt8.ofNat data.length :: data)) := by
  have hsize : (UInt8.ofNat data.length).toNat = data.length := by
    rw [UInt8.toNat_ofNat']
    omega
  have hv : s.curPos ≤ s.storage.length := h
  have hg : (s.grow (data.length + 1)).Valid := by
    unfold grow
    split
    · show s.curPos ≤ (resize _ _).length
      rw [length_resize]
      omega
    · exact h
  rw [writeBuffer, assert_of hd]
  simp only [ok_bind, hsize, List.take_length]
  rw [writePod_eq hg, copyIn_copyIn hg, encode_uint8, List.singleton_append,
    grow_copyIn h _ (List.length_cons ..).symm]

/-- At the end of the storage, copying in is appending. -/
theorem copyIn_end {s : BinaryOStream} (h : s.curPos = s.storage.length)
    (bytes : BufferT) :
    s.copyIn bytes =
      { storage := s.storage ++ bytes, curPos := s.curPos + bytes.length } := by
  rw [copyIn, h, memcpyAt_end]

end BinaryOStream

end RatingService
