import Mathlib.Data.List.Basic
import Mathlib.Tactic.Ring

/-!
# Fixed-width values as bytes

The memory image of a plain fixed-width value, least significant byte first,
and the class of types that have one. `Pod` carries its own round trip, so a
reader of such values never argues about byte order again.
-/

namespace PodCodec

/-- The `n` low bytes of `v`, least significant first. -/
def leBytes : ℕ → ℕ → List UInt8
  | 0, _ => []
  | n + 1, v => UInt8.ofNat v :: leBytes n (v / 256)

def leNat : List UInt8 → ℕ
  | [] => 0
  | b :: bs => b.toNat + 256 * leNat bs

@[simp] theorem length_leBytes : ∀ n v, (leBytes n v).length = n
  | 0, _ => rfl
  | n + 1, v => by rw [leBytes, List.length_cons, length_leBytes n]

theorem leNat_leBytes : ∀ n v, leNat (leBytes n v) = v % 256 ^ n
  | 0, v => by simp [leBytes, leNat, Nat.mod_one]
  | n + 1, v => by
      rw [leBytes, leNat, leNat_leBytes n, pow_succ, Nat.mul_comm (256 ^ n),
        Nat.mod_mul, UInt8.toNat_ofNat']

/-- A type whose values are `sizeof` bytes of memory. -/
class Pod (α : Type) where
  sizeof : ℕ
  encode : α → List UInt8
  decode : List UInt8 → α
  length_encode : ∀ a, (encode a).length = sizeof
  decode_encode : ∀ a, decode (encode a) = a

attribute [simp] Pod.length_encode Pod.decode_encode

/-- A type read off a natural number below `256 ^ n` is `n` bytes wide. -/
@[reducible] def Pod.ofNat {α : Type} (n : ℕ) (toNat : α → ℕ) (ofNat : ℕ → α)
    (hlt : ∀ a, toNat a < 256 ^ n) (hinv : ∀ a, ofNat (toNat a) = a) :
    Pod α where
  sizeof := n
  encode a := leBytes n (toNat a)
  decode bs := ofNat (leNat bs)
  length_encode a := length_leBytes n (toNat a)
  decode_encode a := by
    rw [leNat_leBytes, Nat.mod_eq_of_lt (hlt a), hinv]

instance : Pod UInt8 :=
  .ofNat 1 UInt8.toNat UInt8.ofNat (fun a => a.toNat_lt) (fun _ => UInt8.ofNat_toNat)

@[simp] theorem encode_uint8 (b : UInt8) : Pod.encode b = [b] := by
  simp [Pod.encode, leBytes]

instance : Pod UInt16 :=
  .ofNat 2 UInt16.toNat UInt16.ofNat (fun a => a.toNat_lt) (fun _ => UInt16.ofNat_toNat)

instance : Pod UInt32 :=
  .ofNat 4 UInt32.toNat UInt32.ofNat (fun a => a.toNat_lt) (fun _ => UInt32.ofNat_toNat)

instance : Pod Int32 :=
  .ofNat 4 (fun a => a.toUInt32.toNat) (fun n => (UInt32.ofNat n).toInt32)
    (fun a => a.toUInt32.toNat_lt) (fun a => by simp)

instance (n : ℕ) : Pod (BitVec (8 * n)) :=
  .ofNat n BitVec.toNat (BitVec.ofNat (8 * n))
    (fun a => by
      have h := a.isLt
      rwa [Nat.pow_mul] at h)
    (fun a => by simp)

/-! Every image of the right length is the image of a value. -/

theorem leNat_lt (bs : List UInt8) : leNat bs < 256 ^ bs.length := by
  induction bs with
  | nil => simp [leNat]
  | cons b bs ih =>
      have hb := b.toNat_lt
      rw [leNat, List.length_cons, pow_succ]
      omega

theorem leBytes_leNat (bs : List UInt8) : leBytes bs.length (leNat bs) = bs := by
  induction bs with
  | nil => rfl
  | cons b bs ih =>
      have hb := b.toNat_lt
      have hhead : UInt8.ofNat (b.toNat + 256 * leNat bs) = b := by
        refine UInt8.toNat.inj ?_
        rw [UInt8.toNat_ofNat']
        omega
      have htail : (b.toNat + 256 * leNat bs) / 256 = leNat bs := by omega
      rw [List.length_cons, leNat, leBytes, hhead, htail, ih]

/-- A type whose values have all the images of their length. -/
class CompletePod (α : Type) [Pod α] : Prop where
  encode_decode : ∀ bs : List UInt8, bs.length = Pod.sizeof α →
    Pod.encode (Pod.decode bs : α) = bs

theorem leBytes_eq {n v : ℕ} {bs : List UInt8} (hbs : bs.length = n)
    (hv : leNat bs < 256 ^ n → v = leNat bs) : leBytes n v = bs := by
  subst hbs
  rw [hv (leNat_lt bs), leBytes_leNat]

instance : CompletePod UInt8 where
  encode_decode bs hbs := leBytes_eq hbs fun hlt => by
    show (UInt8.ofNat (leNat bs)).toNat = leNat bs
    rw [UInt8.toNat_ofNat']
    omega

instance : CompletePod UInt16 where
  encode_decode bs hbs := leBytes_eq hbs fun hlt => by
    show (UInt16.ofNat (leNat bs)).toNat = leNat bs
    rw [UInt16.toNat_ofNat']
    omega

instance : CompletePod Int32 where
  encode_decode bs hbs := leBytes_eq hbs fun hlt => by
    show (UInt32.ofNat (leNat bs)).toNat = leNat bs
    rw [UInt32.toNat_ofNat']
    omega

instance (n : ℕ) : CompletePod (BitVec (8 * n)) where
  encode_decode bs hbs := leBytes_eq hbs fun hlt => by
    show (BitVec.ofNat (8 * n) (leNat bs)).toNat = leNat bs
    rw [BitVec.toNat_ofNat, Nat.pow_mul, Nat.mod_eq_of_lt hlt]

end PodCodec
