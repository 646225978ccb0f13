import Mathlib.Algebra.BigOperators.Group.List.Basic
import Mathlib.Algebra.Ring.Int.Defs

/-!
# Exact accounts behind sums of a fixed width

A program adds amounts up in two stages, in a two's-complement type: the
credits since the last settlement, and what settlements have made of them. The
ledger keeps the credits themselves, so that their sums are exact integers.

- §1: a two's-complement type, and when an addition in it overflows; what a
  table of sums stores.
- §2: the ledger.
- §3: when all its sums are in the range of a type.
-/

/-! ## §1  Fixed width -/

namespace FixedWidth

variable {w : ℕ} {i j : ℤ}

/-- The range of a two's-complement type of `w` bits. -/
def InRange (w : ℕ) (i : ℤ) : Prop :=
  -2 ^ (w - 1) ≤ i ∧ i < 2 ^ (w - 1)

theorem inRange_zero (w : ℕ) : InRange w 0 := by
  have hpos : (0 : ℤ) < 2 ^ (w - 1) := Int.pow_pos (by decide)
  constructor <;> omega

theorem inRange_toInt (x : BitVec w) : InRange w x.toInt :=
  ⟨BitVec.le_toInt x, BitVec.toInt_lt⟩

theorem InRange.toInt_ofInt (hw : 0 < w) (h : InRange w i) :
    (BitVec.ofInt w i).toInt = i :=
  BitVec.toInt_ofInt_eq_self hw h.1 h.2

/-- **An addition overflows exactly when the exact sum leaves the range.** -/
theorem InRange.saddOverflow_iff (hw : 0 < w) (hi : InRange w i)
    (hj : InRange w j) :
    (BitVec.ofInt w i).saddOverflow (BitVec.ofInt w j) = false ↔
      InRange w (i + j) := by
  unfold BitVec.saddOverflow
  rw [hi.toInt_ofInt hw, hj.toInt_ofInt hw, Bool.or_eq_false_iff,
    decide_eq_false_iff_not, decide_eq_false_iff_not, InRange]
  omega

def stored (w : ℕ) (credits : List ℤ) : Option (BitVec w) :=
  if credits = [] then none else some (BitVec.ofInt w credits.sum)

theorem stored_eq_some {credits : List ℤ} {x : BitVec w} :
    stored w credits = some x ↔
      credits ≠ [] ∧ x = BitVec.ofInt w credits.sum := by
  unfold stored
  by_cases h : credits = []
  · simp [h]
  · simp [h, eq_comm]

theorem getD_stored (credits : List ℤ) :
    (stored w credits).getD 0 = BitVec.ofInt w credits.sum := by
  unfold stored
  split
  · next h =>
    rw [h, List.sum_nil]
    rfl
  · rfl

theorem isSome_stored (credits : List ℤ) :
    (stored w credits).isSome = decide (credits ≠ []) := by
  unfold stored
  split
  · next h => rw [h]; rfl
  · next h => exact (decide_eq_true h).symm

theorem stored_concat (credits : List ℤ) (x : BitVec w) :
    stored w (credits ++ [x.toInt]) =
      some ((stored w credits).getD 0 + x) := by
  rw [stored_eq_some, getD_stored, List.sum_append, List.sum_singleton,
    BitVec.ofInt_add, BitVec.ofInt_toInt]
  exact ⟨List.append_ne_nil_of_right_ne_nil _ (List.cons_ne_nil _ _), rfl⟩

/-- An entry is the right one if it is there for some credits only, and its
value is their sum. -/
theorem eq_stored {credits : List ℤ} {entry : Option (BitVec w)}
    (hsome : entry.isSome ↔ credits ≠ [])
    (hsum : entry.getD 0 = BitVec.ofInt w credits.sum) :
    entry = stored w credits := by
  cases entry with
  | none =>
      have hnil : credits = [] := by simpa using hsome
      rw [hnil]
      rfl
  | some x => exact (stored_eq_some.mpr ⟨hsome.mp rfl, hsum⟩).symm

end FixedWidth

/-! ## §2  The ledger -/

open FixedWidth

/-- The credits of every account: those since the last settlement, and those
that settlements have worked in. -/
structure ExactLedger (K : Type*) where
  known : K → Bool := fun _ => false
  pending : K → List ℤ := fun _ => []
  settled : K → List ℤ := fun _ => []

namespace ExactLedger

variable {K : Type*}

section Operations

variable [DecidableEq K]

def enroll (l : ExactLedger K) (k : K) : ExactLedger K :=
  { l with known := Function.update l.known k true }

def credit (l : ExactLedger K) (k : K) (amount : ℤ) : ExactLedger K :=
  { l with pending := Function.update l.pending k (l.pending k ++ [amount]) }

@[simp] theorem pending_credit_self (l : ExactLedger K) (k : K) (amount : ℤ) :
    (l.credit k amount).pending k = l.pending k ++ [amount] :=
  Function.update_self ..

@[simp] theorem pending_credit_ne (l : ExactLedger K) {k k' : K}
    (h : k' ≠ k) (amount : ℤ) :
    (l.credit k amount).pending k' = l.pending k' :=
  Function.update_of_ne h ..

theorem known_enroll (l : ExactLedger K) (k k' : K) :
    (l.enroll k).known k' = (decide (k = k') || l.known k') := by
  by_cases h : k = k'
  · subst h
    simp [enroll]
  · simp [enroll, h, Function.update_of_ne (Ne.symm h)]

end Operations

def kept (l : ExactLedger K) (drop : Bool) (k : K) : List ℤ :=
  if drop then [] else l.settled k

/-- The pending credits of the known accounts are worked in, those of the
others are discarded; a drop discards what was worked in before. -/
def settle (l : ExactLedger K) (drop : Bool) : ExactLedger K :=
  { l with
    pending := fun _ => []
    settled := fun k =>
      l.kept drop k ++ if l.known k then l.pending k else [] }

def total (l : ExactLedger K) (k : K) : ℤ := (l.settled k).sum

theorem settled_settle (l : ExactLedger K) (drop : Bool) (k : K) :
    (l.settle drop).settled k =
      l.kept drop k ++ if l.known k then l.pending k else [] := rfl

theorem settled_settle_ne_nil {l : ExactLedger K} {drop : Bool} {k : K} :
    (l.settle drop).settled k ≠ [] ↔
      l.kept drop k ≠ [] ∨ l.known k = true ∧ l.pending k ≠ [] := by
  rw [settled_settle, ne_eq, List.append_eq_nil_iff, not_and_or]
  apply or_congr_right
  split
  · next hknown => simp [hknown]
  · next hunknown => simp [hunknown]

theorem total_settle_known {l : ExactLedger K} {drop : Bool} {k : K}
    (h : l.known k = true) :
    (l.settle drop).total k = (l.kept drop k).sum + (l.pending k).sum := by
  rw [total, settled_settle, if_pos h, List.sum_append]

theorem total_settle_unknown {l : ExactLedger K} {drop : Bool} {k : K}
    (h : l.known k = false) :
    (l.settle drop).total k = (l.kept drop k).sum := by
  rw [total, settled_settle, h, if_neg Bool.false_ne_true, List.append_nil]

/-! ## §3  Sums in range -/

variable {w : ℕ} {l : ExactLedger K}

/-- All sums of the ledger are in the range of a type of `w` bits. -/
structure Fits (w : ℕ) (l : ExactLedger K) : Prop where
  pending : ∀ k, InRange w (l.pending k).sum
  total : ∀ k, InRange w (l.total k)

theorem fits_empty (w : ℕ) : Fits w ({} : ExactLedger K) :=
  ⟨fun _ => inRange_zero w, fun _ => inRange_zero w⟩

theorem fits_enroll [DecidableEq K] {k : K} (h : Fits w l) :
    Fits w (l.enroll k) :=
  ⟨h.pending, h.total⟩

theorem fits_credit_iff [DecidableEq K] {k : K} {amount : ℤ} (h : Fits w l) :
    Fits w (l.credit k amount) ↔ InRange w ((l.pending k).sum + amount) := by
  have hsum : ((l.credit k amount).pending k).sum =
      (l.pending k).sum + amount := by
    rw [pending_credit_self, List.sum_append, List.sum_singleton]
  constructor
  · intro hfits
    rw [← hsum]
    exact hfits.pending k
  · intro hnew
    refine ⟨fun k' => ?_, h.total⟩
    by_cases hk : k' = k
    · rw [hk, hsum]
      exact hnew
    · rw [pending_credit_ne l hk]
      exact h.pending k'

theorem Fits.kept (h : Fits w l) (drop : Bool) (k : K) :
    InRange w (l.kept drop k).sum := by
  unfold ExactLedger.kept
  split
  · exact inRange_zero w
  · exact h.total k

/-- A settlement forms the sums of the known accounts that have credits of
both kinds. -/
theorem fits_settle_iff {drop : Bool} (h : Fits w l) :
    Fits w (l.settle drop) ↔ ∀ k, l.known k = true → l.kept drop k ≠ [] →
      l.pending k ≠ [] →
        InRange w ((l.kept drop k).sum + (l.pending k).sum) := by
  constructor
  · intro hfits k hknown _ _
    rw [← total_settle_known hknown]
    exact hfits.total k
  · intro hnew
    refine ⟨fun _ => inRange_zero w, fun k => ?_⟩
    cases hknown : l.known k with
    | false =>
        rw [total_settle_unknown hknown]
        exact h.kept drop k
    | true =>
        rw [total_settle_known hknown]
        by_cases hkept : l.kept drop k = []
        · rw [hkept, List.sum_nil, zero_add]
          exact h.pending k
        · by_cases hpending : l.pending k = []
          · rw [hpending, List.sum_nil, add_zero]
            exact h.kept drop k
          · exact hnew k hknown hkept hpending

end ExactLedger
