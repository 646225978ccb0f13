import Mathlib.Algebra.BigOperators.Group.Finset.Basic
import Mathlib.Data.Fintype.BigOperators
import Mathlib.Algebra.Order.Group.Multiset
import Mathlib.Data.List.Induction

/-!
# Handing over slots

Items are put into slots, and now and then a slot is taken with all that is in
it. From a log of these events:

- §1: which take gets an item. It is the first one of the item's slot after
  the item was put there (`due`), or none yet (`owed`).
- §2: what one more event changes.
- §3: every item is due to one take, or still owed.
-/

namespace Handover

/-! ## §1  The account -/

inductive Event (κ μ : Type*) where
  | put (slot : κ) (item : μ)
  | take (slot : κ)

variable {κ μ : Type*}

/-- All that was put anywhere, in order. -/
def items : List (Event κ μ) → List μ
  | [] => []
  | .put _ item :: log => item :: items log
  | .take _ :: log => items log

def takes : List (Event κ μ) → ℕ
  | [] => 0
  | .put _ _ :: log => takes log
  | .take _ :: log => takes log + 1

variable [DecidableEq κ]

/-- The number of the first take of a slot; takes are numbered from 0. -/
def firstTake (slot : κ) : List (Event κ μ) → Option ℕ
  | [] => none
  | .put _ _ :: log => firstTake slot log
  | .take slot' :: log =>
      if slot' = slot then some 0 else (firstTake slot log).map (· + 1)

/-- The items that take number `k` gets: it is the first take of their slot
after they were put there. -/
def due : List (Event κ μ) → ℕ → List μ
  | [], _ => []
  | .put slot item :: log, k =>
      if firstTake slot log = some k then item :: due log k else due log k
  | .take _ :: _, 0 => []
  | .take _ :: log, k + 1 => due log k

def owed : List (Event κ μ) → κ → List μ
  | [], _ => []
  | .put slot' item :: log, slot =>
      if slot' = slot ∧ firstTake slot log = none then item :: owed log slot
      else owed log slot
  | .take _ :: log, slot => owed log slot

/-! ## §2  One more event -/

variable {slot slot' : κ} {item : μ} {log : List (Event κ μ)}

omit [DecidableEq κ] in
theorem items_append (log log' : List (Event κ μ)) :
    items (log ++ log') = items log ++ items log' := by
  induction log with
  | nil => rfl
  | cons event log ih =>
      cases event with
      | put slot item => exact congrArg (item :: ·) ih
      | take slot => exact ih

omit [DecidableEq κ] in
@[simp] theorem takes_put : takes (log ++ [.put slot item]) = takes log := by
  induction log with
  | nil => rfl
  | cons event log ih =>
      cases event with
      | put slot item => exact ih
      | take slot => exact congrArg (· + 1) ih

omit [DecidableEq κ] in
@[simp] theorem takes_take : takes (log ++ [.take slot]) = takes log + 1 := by
  induction log with
  | nil => rfl
  | cons event log ih =>
      cases event with
      | put slot item => exact ih
      | take slot => exact congrArg (· + 1) ih

theorem firstTake_lt {k : ℕ} (h : firstTake slot log = some k) :
    k < takes log := by
  induction log generalizing k with
  | nil => cases h
  | cons event log ih =>
      cases event with
      | put slot' item => exact ih h
      | take slot' =>
          rw [firstTake] at h
          split at h
          · cases h
            exact Nat.succ_pos _
          · obtain ⟨j, hj, rfl⟩ := Option.map_eq_some_iff.mp h
            exact Nat.succ_lt_succ (ih hj)

theorem firstTake_put :
    firstTake slot (log ++ [.put slot' item]) = firstTake slot log := by
  induction log with
  | nil => rfl
  | cons event log ih =>
      cases event with
      | put slot item => exact ih
      | take slot => rw [List.cons_append, firstTake, firstTake, ih]

theorem firstTake_take :
    firstTake slot (log ++ [.take slot']) = (firstTake slot log).or
      (if slot' = slot then some (takes log) else none) := by
  induction log with
  | nil => rfl
  | cons event log ih =>
      cases event with
      | put slot item => exact ih
      | take slot₁ =>
          rw [List.cons_append, firstTake, firstTake, ih, takes]
          split
          · rfl
          · cases firstTake slot log with
            | some j => rfl
            | none => by_cases h : slot' = slot <;> simp [h]

theorem due_put (k : ℕ) : due (log ++ [.put slot item]) k = due log k := by
  induction log generalizing k with
  | nil => rfl
  | cons event log ih =>
      cases event with
      | put slot item => rw [List.cons_append, due, due, firstTake_put, ih]
      | take slot =>
          cases k with
          | zero => rfl
          | succ k => exact ih k

/-- **A take** gets what its slot owes, and no other take gets more. -/
theorem due_take (k : ℕ) : due (log ++ [.take slot]) k =
    if k = takes log then owed log slot else due log k := by
  induction log generalizing k with
  | nil =>
      cases k with
      | zero => rfl
      | succ k => rfl
  | cons event log ih =>
      cases event with
      | put slot' item =>
          rw [List.cons_append, due, due, firstTake_take, ih, takes, owed]
          cases hfirst : firstTake slot' log with
          | some j =>
              have hj := firstTake_lt hfirst
              have hne : ¬ (slot' = slot ∧ firstTake slot log = none) := by
                rintro ⟨rfl, hnone⟩
                rw [hnone] at hfirst
                cases hfirst
              rw [if_neg hne, Option.some_or]
              by_cases hk : some j = some k
              · cases hk
                rw [if_pos rfl, if_neg (Nat.ne_of_lt hj),
                  if_neg (Nat.ne_of_lt hj), if_pos rfl]
              · rw [if_neg hk, if_neg hk]
          | none =>
              rw [Option.none_or]
              by_cases hslot : slot = slot'
              · subst hslot
                by_cases hk : k = takes log
                · subst hk
                  simp [hfirst]
                · simp [hk, Ne.symm hk]
              · simp [hslot, Ne.symm hslot]
      | take slot' =>
          cases k with
          | zero => rfl
          | succ k =>
              rw [List.cons_append, due, due, ih, takes, owed]
              simp

theorem owed_put : owed (log ++ [.put slot' item]) slot =
    if slot' = slot then owed log slot ++ [item] else owed log slot := by
  induction log with
  | nil => by_cases h : slot' = slot <;> simp [owed, firstTake, h]
  | cons event log ih =>
      cases event with
      | put slot₁ item₁ =>
          rw [List.cons_append, owed, owed, firstTake_put, ih]
          split <;> split <;> rfl
      | take slot₁ => exact ih

theorem owed_take : owed (log ++ [.take slot']) slot =
    if slot' = slot then [] else owed log slot := by
  induction log with
  | nil => simp [owed]
  | cons event log ih =>
      cases event with
      | put slot₁ item₁ =>
          rw [List.cons_append, owed, owed, firstTake_take, ih]
          by_cases h : slot' = slot
          · simp [h]
          · simp [h]
      | take slot₁ => exact ih

/-! ## §3  Nothing lost, nothing twice -/

/-- **Every item is due to exactly one take, or still owed.** -/
theorem exactly_once [Fintype κ] (log : List (Event κ μ)) :
    (items log : Multiset μ) =
      ∑ k ∈ Finset.range (takes log), (due log k : Multiset μ) +
        ∑ slot, (owed log slot : Multiset μ) := by
  induction log using List.reverseRecOn with
  | nil => simp [items, takes, owed]
  | append_singleton log event ih =>
      cases event with
      | put slot item =>
          have howed : ∀ slot', (owed (log ++ [.put slot item]) slot' :
              Multiset μ) = owed log slot' + if slot = slot' then {item} else 0 := by
            intro slot'
            rw [owed_put]
            split
            · rfl
            · rw [add_zero]
          rw [items_append, takes_put]
          simp only [due_put, howed]
          rw [Finset.sum_add_distrib, Finset.sum_ite_eq, if_pos (Finset.mem_univ _),
            ← add_assoc, ← ih]
          rfl
      | take slot =>
          have hdue : ∀ k ∈ Finset.range (takes log),
              (due (log ++ [.take slot]) k : Multiset μ) = due log k := by
            intro k hk
            rw [due_take, if_neg (Nat.ne_of_lt (Finset.mem_range.mp hk))]
          have howed : ∑ slot', (owed log slot' : Multiset μ) = owed log slot +
              ∑ slot', (owed (log ++ [.take slot]) slot' : Multiset μ) := by
            have hrest : ∀ f : κ → Multiset μ, ∑ slot', f slot' =
                f slot + ∑ slot' ∈ Finset.univ.erase slot, f slot' :=
              fun f => (Finset.add_sum_erase _ f (Finset.mem_univ slot)).symm
            have hafter := hrest fun slot' =>
              (owed (log ++ [.take slot]) slot' : Multiset μ)
            rw [owed_take, if_pos rfl, Multiset.coe_nil, zero_add] at hafter
            rw [hrest, hafter]
            congr 1
            refine Finset.sum_congr rfl fun slot' hslot' => ?_
            rw [owed_take, if_neg (Finset.ne_of_mem_erase hslot').symm]
          rw [items_append, takes_take, Finset.sum_range_succ,
            Finset.sum_congr rfl hdue, due_take, if_pos rfl, add_assoc, ← howed,
            ← ih]
          exact congrArg _ (List.append_nil _)

end Handover
