import RatingService.Framework.Runs
import RatingService.Utils.BinaryStorage

/-!
# Histories of an output stream

`BinaryOStream` through any sequence of its operations. Framing goes back to
the front of a message to put its size in, and rating buffers are cut and
written over, so writes happen at the end of the storage, in the middle of it
and across its end.

- §1: the bytes of a copy.
- §2: the operations and what each of them does.
- §3: any sequence of them.
-/

namespace RatingService

open PodCodec Runs

/-! ## §1  The bytes of a copy -/

theorem getElem?_memcpyAt {b bytes : BufferT} {pos : ℕ} (h : pos ≤ b.length)
    (i : ℕ) :
    (memcpyAt b pos bytes)[i]? =
      if pos ≤ i ∧ i < pos + bytes.length then bytes[i - pos]? else b[i]? := by
  have hfront : (b.take pos).length = pos := List.length_take_of_le h
  have hcovered : (b.take pos ++ bytes).length = pos + bytes.length := by
    rw [List.length_append, hfront]
  unfold memcpyAt
  rcases Nat.lt_or_ge i (pos + bytes.length) with hi | hi
  · rw [List.getElem?_append_left (by omega)]
    rcases Nat.lt_or_ge i pos with hlow | hlow
    · rw [if_neg (by omega), List.getElem?_append_left (by omega),
        List.getElem?_take_of_lt hlow]
    · rw [if_pos ⟨hlow, hi⟩, List.getElem?_append_right (by omega), hfront]
  · rw [if_neg (by omega), List.getElem?_append_right (by omega), hcovered,
      List.getElem?_drop, Nat.add_sub_cancel' hi]

namespace BinaryOStream

/-- Behind the growth there is room for the bytes, and the position is where
it was. -/
theorem grow_room {s : BinaryOStream} (h : s.Valid) (n : ℕ) :
    (s.grow n).getPos = s.getPos ∧
      s.getPos + n ≤ (s.grow n).storage.length := by
  have hv : s.curPos ≤ s.storage.length := h
  have hpos : s.getPos = s.curPos := rfl
  unfold grow
  rw [sizeSub_of_le hv]
  split
  · constructor
    · rfl
    · rw [length_resize, hpos]
  · constructor
    · rfl
    · omega

end BinaryOStream

/-! ## §2  The operations -/

/-- The operations of a writer: `<<` of any plain value, `<<` of a short
buffer, `setPos` and `rewind`. -/
inductive OStreamOp : Type 1 where
  | pod {α : Type} [Pod α] (data : α)
  | buffer (data : BufferT) (short : data.length ≤ 255)
  | setPos (newPos : ℕ)
  | rewind (pos : ℕ)

/-- The bytes were written at the position, and nothing else was. -/
structure BinaryOStream.Wrote (s : BinaryOStream) (bytes : BufferT)
    (s' : BinaryOStream) : Prop where
  written : ∀ i < bytes.length, s'.storage[s.getPos + i]? = bytes[i]?
  kept : ∀ i, i < s.getPos ∨ s.getPos + bytes.length ≤ i →
    s'.storage[i]? = s.storage[i]?
  size : s'.storage.length = max s.storage.length (s.getPos + bytes.length)
  pos : s'.getPos = s.getPos + bytes.length

/-- The subtraction at the head of a write does not wrap, and behind the growth
there is room for the bytes. -/
def BinaryOStream.SafeGrow (s : BinaryOStream) (n : ℕ) : Prop :=
  sizeSub s.storage.length s.getPos = s.storage.length - s.getPos ∧
    (s.grow n).getPos + n ≤ (s.grow n).storage.length

namespace OStreamOp

/-- An operation, with the value it returns; `<<` returns the stream. -/
def run (s : BinaryOStream) : OStreamOp → Outcome (Bool × BinaryOStream)
  | @pod _ _ data => .ok (true, s.writePod data)
  | .buffer data _ => do
      let s ← s.writeBuffer data
      .ok (true, s)
  | .setPos newPos => .ok (s.setPos newPos)
  | .rewind pos => .ok (s.rewind pos)

/-- **What an operation should do**, from `s` to `s'`, and return. -/
def Law (s : BinaryOStream) (done : Bool) (s' : BinaryOStream) :
    OStreamOp → Prop
  | @pod _ _ data => done = true ∧ s.Wrote (Pod.encode data) s'
  | .buffer data _ =>
      done = true ∧ s.Wrote (UInt8.ofNat data.length :: data) s'
  | .setPos newPos =>
      if newPos ≤ s.storage.length then
        done = true ∧ s'.storage = s.storage ∧ s'.getPos = newPos
      else done = false ∧ s' = s
  | .rewind pos =>
      if pos ≤ s.storage.length then
        done = true ∧ s'.storage = s.storage.take pos ∧ s'.getPos = pos
      else done = false ∧ s' = s

/-- **What is safe about it**: no subtraction of the position from the size
wraps, and no byte is copied past the end. The `<<` of a buffer grows the
storage, has its length written by the `<<` of a byte, and copies the rest. -/
def Safe (s : BinaryOStream) : OStreamOp → Prop
  | @pod α _ _ => s.SafeGrow (Pod.sizeof α)
  | .buffer data _ =>
      let grown := s.grow (data.length + 1)
      let sized := grown.writePod (UInt8.ofNat data.length)
      s.SafeGrow (data.length + 1) ∧ grown.SafeGrow 1 ∧
        sized.getPos + data.length ≤ sized.storage.length
  | .setPos _ => True
  | .rewind _ => True

end OStreamOp

namespace BinaryOStream

variable {s s' : BinaryOStream}

theorem wrote_copyIn (h : s.Valid) (bytes : BufferT) :
    s.Wrote bytes (s.copyIn bytes) := by
  have hbytes := @getElem?_memcpyAt _ bytes _ h
  constructor
  · intro i hi
    refine (hbytes _).trans ?_
    rw [if_pos ⟨Nat.le_add_right _ _, Nat.add_lt_add_left hi _⟩]
    exact congrArg (bytes[·]?) (Nat.add_sub_cancel_left _ _)
  · intro i hi
    refine (hbytes i).trans (if_neg ?_)
    rintro ⟨hlow, hhigh⟩
    rcases hi with hi | hi
    · exact absurd hlow (not_le.mpr hi)
    · exact absurd hhigh (not_lt.mpr hi)
  · exact length_memcpyAt h
  · rfl

theorem safeGrow (h : s.Valid) (n : ℕ) : s.SafeGrow n := by
  obtain ⟨hpos, hroom⟩ := grow_room h n
  constructor
  · exact sizeSub_of_le h
  · rw [hpos]
    exact hroom

theorem Wrote.valid {bytes : BufferT} (h : s.Wrote bytes s') : s'.Valid := by
  have hsize := h.size
  have hpos : s'.curPos = s.curPos + bytes.length := h.pos
  have hold : s.getPos = s.curPos := rfl
  show s'.curPos ≤ s'.storage.length
  omega

end BinaryOStream

namespace OStreamOp

open BinaryOStream

variable {s : BinaryOStream}

/-- **One operation** on a stream whose position is not past its end. -/
theorem lawful (h : s.Valid) (op : OStreamOp) :
    op.Safe s ∧ ∃ done s', op.run s = .ok (done, s') ∧ op.Law s done s' ∧
      s'.Valid := by
  cases op with
  | @pod α _ data =>
      have hwrote := wrote_copyIn h (Pod.encode data)
      refine ⟨safeGrow h _, true, _, rfl, ⟨rfl, ?_⟩, ?_⟩
      · rw [writePod_eq h]
        exact hwrote
      · rw [writePod_eq h]
        exact hwrote.valid
  | buffer data short =>
      obtain ⟨hpos, hroom⟩ := grow_room h (data.length + 1)
      have hgrown : (s.grow (data.length + 1)).Valid := by
        show (s.grow (data.length + 1)).getPos ≤ _
        omega
      have hwrote := wrote_copyIn h (UInt8.ofNat data.length :: data)
      refine ⟨⟨safeGrow h _, safeGrow hgrown _, ?_⟩, true,
        s.copyIn (UInt8.ofNat data.length :: data), ?_, ⟨rfl, hwrote⟩,
        hwrote.valid⟩
      · -- the length byte takes one of the bytes there is room for
        have hsized := wrote_copyIn hgrown [UInt8.ofNat data.length]
        have hsize := hsized.size
        have hsizedPos := hsized.pos
        rw [writePod_eq hgrown, encode_uint8]
        rw [hpos, List.length_singleton] at hsize hsizedPos
        omega
      · rw [run, writeBuffer_eq h short]
        rfl
  | setPos newPos =>
      refine ⟨trivial, ?_⟩
      rw [run, BinaryOStream.setPos]
      by_cases hle : newPos ≤ s.storage.length
      · rw [if_neg (not_lt.mpr hle)]
        exact ⟨_, _, rfl, (if_pos hle).mpr ⟨rfl, rfl, rfl⟩, hle⟩
      · rw [if_pos (not_le.mp hle)]
        exact ⟨_, _, rfl, (if_neg hle).mpr ⟨rfl, rfl⟩, h⟩
  | rewind pos =>
      refine ⟨trivial, ?_⟩
      rw [run, BinaryOStream.rewind]
      by_cases hle : pos ≤ s.storage.length
      · rw [if_neg (not_lt.mpr hle)]
        refine ⟨_, _, rfl, (if_pos hle).mpr ⟨rfl, resize_of_le hle, rfl⟩, ?_⟩
        show pos ≤ (resize s.storage pos).length
        rw [length_resize]
      · rw [if_pos (not_le.mp hle)]
        exact ⟨_, _, rfl, (if_neg hle).mpr ⟨rfl, rfl⟩, h⟩

end OStreamOp

/-! ## §3  Any sequence -/

def BinaryOStream.step (s : BinaryOStream) (op : OStreamOp) :
    Outcome BinaryOStream := do
  let (_, s) ← op.run s
  .ok s

theorem BinaryOStream.step_valid {s : BinaryOStream} (h : s.Valid)
    (op : OStreamOp) : ∃ s', s.step op = .ok s' ∧ s'.Valid := by
  obtain ⟨-, done, s', hrun, -, hvalid⟩ := op.lawful h
  refine ⟨s', ?_, hvalid⟩
  rw [step, hrun]
  rfl

/-- **The law of the output stream**: from an empty stream, any sequence of
operations runs through, the position is never past the end of the storage,
and every operation on the way is safe and does what it should. -/
theorem outputStream_law (ops : List OStreamOp) :
    (∃ s, exec BinaryOStream.step {} ops = .ok s ∧
      s.getPos ≤ s.storage.length) ∧
    ∀ pre op post, ops = pre ++ op :: post →
      ∃ s, exec BinaryOStream.step {} pre = .ok s ∧
        s.getPos ≤ s.storage.length ∧ op.Safe s ∧
        ∃ done s', op.run s = .ok (done, s') ∧ op.Law s done s' ∧
          s'.getPos ≤ s'.storage.length := by
  have hreach := exec_total (fun _ op h => BinaryOStream.step_valid h op)
  constructor
  · exact hreach ops {} (Nat.le_refl 0)
  · intro pre op post _
    obtain ⟨s, hs, hvalid⟩ := hreach pre {} (Nat.le_refl 0)
    obtain ⟨hsafe, done, s', hrun, hlaw, hvalid'⟩ := op.lawful hvalid
    exact ⟨s, hs, hvalid, hsafe, done, s', hrun, hlaw, hvalid'⟩

end RatingService
