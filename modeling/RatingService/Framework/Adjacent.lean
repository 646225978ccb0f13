import Mathlib.Data.List.Basic
import Mathlib.Data.List.Nodup

/-!
# Neighbours in a list

Which elements of a list stand one right behind the other. In a list without
duplicates an element has at most one successor and at most one predecessor,
and only the last has no successor.
-/

namespace Adjacency

variable {α : Type*}

/-- `b` stands right behind `a`. -/
def Adjacent : List α → α → α → Prop
  | [], _, _ => False
  | x :: l, a, b => a = x ∧ l.head? = some b ∨ Adjacent l a b

variable {l : List α} {a b c x : α}

theorem Adjacent.mem_left (h : Adjacent l a b) : a ∈ l := by
  induction l with
  | nil => exact h.elim
  | cons x l ih =>
      rcases h with ⟨rfl, -⟩ | h
      · exact List.mem_cons_self
      · exact List.mem_cons_of_mem _ (ih h)

theorem Adjacent.mem_tail (h : Adjacent l a b) : b ∈ l.tail := by
  induction l with
  | nil => exact h.elim
  | cons x l ih =>
      rcases h with ⟨-, h⟩ | h
      · exact List.mem_of_head? h
      · exact List.mem_of_mem_tail (ih h)

theorem adjacent_append_singleton :
    Adjacent (l ++ [x]) a b ↔ Adjacent l a b ∨ l.getLast? = some a ∧ b = x := by
  induction l with
  | nil => simp [Adjacent]
  | cons y l ih =>
      rw [List.cons_append, Adjacent, Adjacent, ih]
      cases l with
      | nil => simp [Adjacent, eq_comm]
      | cons z l =>
          rw [List.getLast?_cons_cons, List.cons_append, List.head?_cons,
            List.head?_cons, or_assoc]

theorem Adjacent.right_unique (hnd : l.Nodup) (hb : Adjacent l a b)
    (hc : Adjacent l a c) : b = c := by
  induction l with
  | nil => exact hb.elim
  | cons x l ih =>
      obtain ⟨hx, hnd⟩ := List.nodup_cons.mp hnd
      rcases hb with ⟨rfl, hb⟩ | hb
      · rcases hc with ⟨-, hc⟩ | hc
        · exact Option.some_inj.mp (hb.symm.trans hc)
        · exact absurd hc.mem_left hx
      · rcases hc with ⟨rfl, -⟩ | hc
        · exact absurd hb.mem_left hx
        · exact ih hnd hb hc

theorem Adjacent.ne_getLast (hnd : l.Nodup) (h : Adjacent l a b) :
    l.getLast? ≠ some a := by
  induction l with
  | nil => exact h.elim
  | cons x l ih =>
      obtain ⟨hx, hnd⟩ := List.nodup_cons.mp hnd
      cases l with
      | nil => rcases h with ⟨-, h⟩ | h <;> cases h
      | cons y l =>
          rw [List.getLast?_cons_cons]
          rcases h with ⟨rfl, -⟩ | h
          · intro hlast
            exact hx (List.mem_of_getLast? hlast)
          · exact ih hnd h

end Adjacency
