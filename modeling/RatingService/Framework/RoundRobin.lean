import Mathlib.Data.Multiset.Basic
import Mathlib.Data.Fintype.Basic
import Mathlib.Algebra.BigOperators.Group.Finset.Basic
import Mathlib.Algebra.BigOperators.Group.Finset.Piecewise
import Mathlib.Algebra.Order.Group.Multiset

/-!
# Round robin

Items given out to `n` takers in turn. What a taker gets is every `n`-th item
from his first one on, and as long as each takes from the front of a queue of
his own, what he has taken and what waits for him is his share.

- §1: shares.
- §2: takers with queues.
-/

namespace RoundRobin

variable {α : Type*} {n : ℕ}

/-! ## §1  Shares -/

/-- Every `n`-th item of a list, from the one at `i` on. -/
def share (n : ℕ) : ℕ → List α → List α
  | _, [] => []
  | 0, a :: l => a :: share n (n - 1) l
  | i + 1, _ :: l => share n i l

theorem getElem?_share (hn : 0 < n) (l : List α) (i k : ℕ) :
    (share n i l)[k]? = l[i + k * n]? := by
  induction l generalizing i k with
  | nil => rfl
  | cons a l ih =>
      cases i with
      | zero =>
          cases k with
          | zero => simp [share]
          | succ k =>
              have hpos : 0 + (k + 1) * n = (n - 1 + k * n) + 1 := by
                rw [Nat.add_mul, Nat.one_mul]
                omega
              rw [share, List.getElem?_cons_succ, ih, hpos,
                List.getElem?_cons_succ]
      | succ i =>
          rw [share, ih, show i + 1 + k * n = i + k * n + 1 by omega,
            List.getElem?_cons_succ]

theorem succ_mod (hn : 0 < n) (m : ℕ) :
    (m + 1) % n = if m % n + 1 = n then 0 else m % n + 1 := by
  have hlt := Nat.mod_lt m hn
  rcases Nat.lt_or_ge 1 n with h | h
  · rw [Nat.add_mod_eq_ite, Nat.mod_eq_of_lt h]
    split <;> split <;> omega
  · obtain rfl : n = 1 := by omega
    rw [Nat.mod_one, Nat.mod_one, if_pos rfl]

theorem share_concat {l : List α} {a : α} {i : ℕ} (hi : i < n) :
    share n i (l ++ [a]) =
      share n i l ++ if i = l.length % n then [a] else [] := by
  induction l generalizing i with
  | nil =>
      rw [List.nil_append, List.length_nil, Nat.zero_mod]
      cases i <;> rfl
  | cons b l ih =>
      have hn := Nat.zero_lt_of_lt hi
      have hlt := Nat.mod_lt l.length hn
      rw [List.cons_append, List.length_cons, succ_mod hn]
      cases i with
      | zero =>
          rw [share, share, ih (by omega), List.cons_append]
          exact congrArg _ (congrArg _ (if_congr (by split <;> omega) rfl rfl))
      | succ i =>
          rw [share, share, ih (by omega)]
          exact congrArg _ (if_congr (by split <;> omega) rfl rfl)

/-- **Every item is in one share**, as often as it was given. -/
theorem sum_share (hn : 0 < n) (l : List α) :
    ∑ i : Fin n, (share n i l : Multiset α) = (l : Multiset α) := by
  induction l using List.reverseRecOn with
  | nil => exact Finset.sum_eq_zero fun _ _ => rfl
  | append_singleton l a ih =>
      have hnext : ∀ i : Fin n, (share n i (l ++ [a]) : Multiset α) =
          share n i l +
            if i = ⟨l.length % n, Nat.mod_lt _ hn⟩ then {a} else 0 := by
        intro i
        rw [share_concat i.isLt, ← Multiset.coe_add]
        simp only [Fin.ext_iff]
        split <;> rfl
      rw [Finset.sum_congr rfl fun i _ => hnext i, Finset.sum_add_distrib, ih,
        Finset.sum_ite_eq', if_pos (Finset.mem_univ _), ← Multiset.coe_add]
      rfl

/-! ## §2  Takers with queues -/

/-- **What the takers have taken and what waits for them**, when `given` is
what was given out and `next` is the next in turn. -/
structure Dealt (given : List α) (taken queued : Fin n → List α)
    (next : Fin n) : Prop where
  shares : ∀ i, taken i ++ queued i = share n i given
  turn : next.val = given.length % n

variable {given : List α} {taken taken' queued queued' : Fin n → List α}
  {next next' : Fin n}

theorem Dealt.begin (hn : 0 < n) :
    Dealt ([] : List α) (fun _ : Fin n => []) (fun _ => []) ⟨0, hn⟩ where
  shares _ := rfl
  turn := rfl

theorem Dealt.congr (h : Dealt given taken queued next)
    (htaken : ∀ i, taken' i = taken i) (hqueued : ∀ i, queued' i = queued i)
    (hnext : next' = next) : Dealt given taken' queued' next' := by
  rw [funext htaken, funext hqueued, hnext]
  exact h

theorem Dealt.give (h : Dealt given taken queued next) {a : α}
    (hqueued : ∀ i, queued' i =
      if i = next then queued i ++ [a] else queued i)
    (hnext : next'.val = if next.val + 1 = n then 0 else next.val + 1) :
    Dealt (given ++ [a]) taken queued' next' where
  shares i := by
    rw [share_concat i.isLt, ← h.turn, hqueued, ← h.shares]
    by_cases hi : i = next
    · rw [if_pos hi, if_pos (congrArg _ hi), List.append_assoc]
    · rw [if_neg hi, if_neg fun heq => hi (Fin.ext heq), List.append_nil]
  turn := by
    rw [hnext, List.length_append, List.length_singleton, succ_mod next.pos,
      h.turn]

theorem Dealt.take (h : Dealt given taken queued next) {i : Fin n} {l : List α}
    (htaken : ∀ j, taken' j = if j = i then taken j ++ l else taken j)
    (hqueued : ∀ j, queued j = if j = i then l ++ queued' j else queued' j) :
    Dealt given taken' queued' next where
  shares j := by
    rw [htaken, ← h.shares, hqueued]
    by_cases hj : j = i
    · rw [if_pos hj, if_pos hj, List.append_assoc]
    · rw [if_neg hj, if_neg hj]
  turn := h.turn

/-- The item at a place goes to the taker whose turn it was: he is the one who
takes it, or it waits for him. -/
theorem Dealt.getElem? (h : Dealt given taken queued next) (i : Fin n)
    (k : ℕ) : (taken i ++ queued i)[k]? = given[i.val + k * n]? := by
  rw [h.shares, getElem?_share i.pos]

/-- **Nothing is lost and nothing comes twice.** -/
theorem Dealt.sum (h : Dealt given taken queued next) :
    ∑ i, ((taken i : Multiset α) + queued i) = (given : Multiset α) := by
  rw [← sum_share next.pos given]
  refine Finset.sum_congr rfl fun i _ => ?_
  rw [Multiset.coe_add, h.shares]

theorem Dealt.mem_given (h : Dealt given taken queued next) {i : Fin n} {a : α}
    (ha : a ∈ taken i) : a ∈ given := by
  rw [← Multiset.mem_coe, ← h.sum, Multiset.mem_sum]
  exact ⟨i, Finset.mem_univ i, Multiset.mem_add.mpr (.inl ha)⟩

end RoundRobin
