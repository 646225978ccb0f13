import Mathlib.Data.List.Basic
import Mathlib.Data.List.Induction
import Mathlib.Data.List.TakeWhile

/-!
# Patching an array from its end

A list of *patches*, each addressed by the number of elements behind the
place it touches, is applied to an array in one pass from the last element
to the first. Addressing by "elements behind" is what makes one pass enough:
nothing the pass has already handled changes an address still to come.

- §1: patches, their order, and the abstract pass `progress` / `patched`. The
  array is read backwards (`ys`), so "elements behind" is an index into `ys`.
- §2: which elements the result has, and when it is sorted.
- §3: counting, and when no element has to move towards the front.
- §4: the same pass done in place (block moves inside one array whose front
  part still holds the elements not handled): `InPlace` ties the array to
  the abstract pass, also while insertions run ahead of the removals.
-/

namespace PatchMerge

variable {α : Type*}

/-! ## §1  Patches and the pass -/

/-- One patch: take the element with `behind` elements behind it away, or put
a new element in front of the last `behind` elements. -/
inductive Patch (α : Type*) where
  | remove (behind : ℕ)
  | insert (behind : ℕ) (a : α)

def Patch.behind : Patch α → ℕ
  | .remove k => k
  | .insert k _ => k

/-- How many elements of the old array are handled once a patch is applied:
a removal also handles the element it takes away. -/
def Patch.consumed : Patch α → ℕ
  | .remove k => k + 1
  | .insert k _ => k

def Patch.isInsert : Patch α → Bool
  | .remove _ => false
  | .insert _ _ => true

def Patch.isRemove (p : Patch α) : Bool := !p.isInsert

theorem Patch.behind_le_consumed (p : Patch α) : p.behind ≤ p.consumed := by
  cases p <;> simp [behind, consumed]

/-- The patches come in pass order and touch an array of `n` elements. -/
structure Ordered (n : ℕ) (ps : List (Patch α)) : Prop where
  pairwise : ps.Pairwise (fun p q => p.consumed ≤ q.behind)
  bounded : ∀ p ∈ ps, p.consumed ≤ n

theorem Ordered.prefix {n : ℕ} {ps qs : List (Patch α)}
    (h : Ordered n (ps ++ qs)) : Ordered n ps :=
  ⟨(List.pairwise_append.mp h.pairwise).1,
    fun p hp => h.bounded p (List.mem_append_left _ hp)⟩

/-- How far the pass has come: the number of old elements handled and the
elements produced, the array's last element first. -/
structure Progress (α : Type*) where
  done : ℕ
  out : List α

/-- Elements `i ≤ e < j` of the backwards array. -/
def block (ys : List α) (i j : ℕ) : List α := (ys.drop i).take (j - i)

def patchStep (ys : List α) (st : Progress α) : Patch α → Progress α
  | .remove k => ⟨k + 1, st.out ++ block ys st.done k⟩
  | .insert k a => ⟨k, st.out ++ block ys st.done k ++ [a]⟩

def progress (ys : List α) (ps : List (Patch α)) : Progress α :=
  ps.foldl (patchStep ys) ⟨0, []⟩

def patched (ys : List α) (ps : List (Patch α)) : List α :=
  (progress ys ps).out ++ ys.drop (progress ys ps).done

theorem progress_snoc (ys : List α) (ps : List (Patch α)) (p : Patch α) :
    progress ys (ps ++ [p]) = patchStep ys (progress ys ps) p := by
  rw [progress, List.foldl_append]
  rfl

@[simp] theorem patchStep_done (ys : List α) (st : Progress α) (p : Patch α) :
    (patchStep ys st p).done = p.consumed := by
  cases p <;> rfl

theorem getElem?_block {ys : List α} {i j e : ℕ} :
    (block ys i j)[e]? = if e < j - i then ys[i + e]? else none := by
  rw [block, List.getElem?_take, List.getElem?_drop]

theorem mem_block {ys : List α} {i j : ℕ} {y : α} :
    y ∈ block ys i j ↔ ∃ e, i ≤ e ∧ e < j ∧ ys[e]? = some y := by
  rw [List.mem_iff_getElem?]
  constructor
  · rintro ⟨e, he⟩
    rw [getElem?_block] at he
    split at he
    · exact ⟨i + e, by omega, by omega, he⟩
    · cases he
  · rintro ⟨e, hi, hj, he⟩
    refine ⟨e - i, ?_⟩
    rw [getElem?_block, if_pos (by omega), Nat.add_sub_cancel' hi, he]

theorem length_block {ys : List α} {i j : ℕ} (hj : j ≤ ys.length) :
    (block ys i j).length = j - i := by
  rw [block, List.length_take, List.length_drop]
  omega

/-- The pass never runs ahead of the patches it has applied. -/
theorem done_le (ys : List α) {ps : List (Patch α)} {m : ℕ}
    (h : ∀ p ∈ ps, p.consumed ≤ m) : (progress ys ps).done ≤ m := by
  induction ps using List.reverseRecOn with
  | nil => exact Nat.zero_le m
  | append_singleton ps p ih =>
      rw [progress_snoc, patchStep_done]
      exact h p (by simp)

/-- In pass order, everything an applied patch handled is done. -/
theorem consumed_le_done (ys : List α) {n : ℕ} {ps : List (Patch α)}
    (hord : Ordered n ps) : ∀ p ∈ ps, p.consumed ≤ (progress ys ps).done := by
  induction ps using List.reverseRecOn with
  | nil => intro p hp; cases hp
  | append_singleton ps q ih =>
      intro p hp
      rw [progress_snoc, patchStep_done]
      rcases List.mem_append.mp hp with hp | hp
      · have hpq := (List.pairwise_append.mp hord.pairwise).2.2 p hp q (by simp)
        exact Nat.le_trans hpq q.behind_le_consumed
      · exact Nat.le_of_eq (congrArg _ (List.mem_singleton.mp hp))

theorem done_le_behind (ys : List α) {n : ℕ} {ps qs : List (Patch α)}
    {p : Patch α} (hord : Ordered n (ps ++ p :: qs)) :
    (progress ys ps).done ≤ p.behind :=
  done_le ys fun q hq =>
    (List.pairwise_append.mp hord.pairwise).2.2 q hq p List.mem_cons_self

/-! ## §2  The result of the pass -/

/-- The element `e` is taken away by some patch. -/
def Removed (ps : List (Patch α)) (e : ℕ) : Prop := .remove e ∈ ps

/-- What the pass moves as a block is not removed by any patch. -/
theorem not_removed_of_block (ys : List α) {n e : ℕ}
    {ps qs : List (Patch α)} {p : Patch α}
    (hord : Ordered n (ps ++ p :: qs))
    (hdone : (progress ys ps).done ≤ e) (he : e < p.behind) :
    ¬ Removed (ps ++ p :: qs) e := by
  intro hrem
  rcases List.mem_append.mp hrem with hmem | hmem
  · have := consumed_le_done ys hord.prefix _ hmem
    simp only [Patch.consumed] at this
    omega
  · rcases List.mem_cons.mp hmem with heq | hmem
    · rw [← heq] at he
      exact absurd he (Nat.lt_irrefl e)
    · have hpq := (List.pairwise_append.mp hord.pairwise).2.1
      have hpe : p.consumed ≤ e := (List.pairwise_cons.mp hpq).1 _ hmem
      have hle := p.behind_le_consumed
      omega

theorem not_removed_of_done {ys : List α} {n e : ℕ} {ps : List (Patch α)}
    (hord : Ordered n ps) (he : (progress ys ps).done ≤ e) :
    ¬ Removed ps e := by
  intro hrem
  have := consumed_le_done ys hord _ hrem
  simp only [Patch.consumed] at this
  omega

theorem mem_out {ys : List α} {ps qs : List (Patch α)} {y : α}
    (hord : Ordered ys.length (ps ++ qs)) :
    y ∈ (progress ys ps).out ↔
      (∃ e, e < (progress ys ps).done ∧ ¬ Removed (ps ++ qs) e ∧
        ys[e]? = some y) ∨ ∃ k, .insert k y ∈ ps := by
  induction ps using List.reverseRecOn generalizing qs with
  | nil => simp [progress]
  | append_singleton ps p ih =>
      rw [List.append_assoc, List.singleton_append] at hord ⊢
      have hle := done_le_behind ys hord
      have hblock := fun {e} => not_removed_of_block ys (e := e) hord
      have hold := ih hord
      rw [progress_snoc]
      cases p with
      | remove k =>
          simp only [patchStep, List.mem_append, hold, mem_block,
            List.mem_singleton, reduceCtorEq, or_false]
          simp only [Patch.behind] at hle hblock
          constructor
          · rintro ((⟨e, he, hr, hy⟩ | hins) | ⟨e, hi, hj, hy⟩)
            · exact Or.inl ⟨e, by omega, hr, hy⟩
            · exact Or.inr hins
            · exact Or.inl ⟨e, by omega, hblock hi hj, hy⟩
          · rintro (⟨e, he, hr, hy⟩ | hins)
            · have hek : e ≠ k := by
                rintro rfl
                exact hr (List.mem_append_right _ List.mem_cons_self)
              by_cases hed : e < (progress ys ps).done
              · exact Or.inl (Or.inl ⟨e, hed, hr, hy⟩)
              · exact Or.inr ⟨e, by omega, by omega, hy⟩
            · exact Or.inl (Or.inr hins)
      | insert k a =>
          simp only [patchStep, List.mem_append, hold, mem_block,
            List.mem_singleton, Patch.insert.injEq]
          simp only [Patch.behind] at hle hblock
          constructor
          · rintro (((⟨e, he, hr, hy⟩ | ⟨k', hins⟩) | ⟨e, hi, hj, hy⟩) | rfl)
            · exact Or.inl ⟨e, by omega, hr, hy⟩
            · exact Or.inr ⟨k', Or.inl hins⟩
            · exact Or.inl ⟨e, hj, hblock hi hj, hy⟩
            · exact Or.inr ⟨k, Or.inr ⟨rfl, rfl⟩⟩
          · rintro (⟨e, he, hr, hy⟩ | ⟨k', hins | ⟨-, rfl⟩⟩)
            · by_cases hed : e < (progress ys ps).done
              · exact Or.inl (Or.inl (Or.inl ⟨e, hed, hr, hy⟩))
              · exact Or.inl (Or.inr ⟨e, by omega, he, hy⟩)
            · exact Or.inl (Or.inl (Or.inr ⟨k', hins⟩))
            · exact Or.inr rfl

/-- **Content of the patched array**: the elements no patch removes, and the
inserted ones. -/
theorem mem_patched {ys : List α} {ps : List (Patch α)} {y : α}
    (hord : Ordered ys.length ps) :
    y ∈ patched ys ps ↔
      (∃ e, ¬ Removed ps e ∧ ys[e]? = some y) ∨ ∃ k, .insert k y ∈ ps := by
  have hord' : Ordered ys.length (ps ++ []) := by simpa using hord
  have hout := mem_out (y := y) hord'
  rw [List.append_nil] at hout
  rw [patched, List.mem_append, hout, List.mem_iff_getElem?]
  constructor
  · rintro ((⟨e, -, hr, hy⟩ | hins) | ⟨i, hi⟩)
    · exact Or.inl ⟨e, hr, hy⟩
    · exact Or.inr hins
    · rw [List.getElem?_drop] at hi
      exact Or.inl ⟨_, not_removed_of_done hord (Nat.le_add_right _ i), hi⟩
  · rintro (⟨e, hr, hy⟩ | hins)
    · by_cases he : e < (progress ys ps).done
      · exact Or.inl (Or.inl ⟨e, he, hr, hy⟩)
      · refine Or.inr ⟨e - (progress ys ps).done, ?_⟩
        rw [List.getElem?_drop, Nat.add_sub_cancel' (by omega), hy]
    · exact Or.inl (Or.inr hins)

/-- What a relation has to satisfy for the patched array to be sorted by it
(`R x y`: `x` stands before `y` in the backwards array). -/
structure Fits (R : α → α → Prop) (ys : List α) (ps : List (Patch α)) :
    Prop where
  survivors : ∀ i j x y, i < j → ¬ Removed ps i → ¬ Removed ps j →
    ys[i]? = some x → ys[j]? = some y → R x y
  below : ∀ k a i x, .insert k a ∈ ps → i < k → ¬ Removed ps i →
    ys[i]? = some x → R x a
  above : ∀ k a i x, .insert k a ∈ ps → k ≤ i → ¬ Removed ps i →
    ys[i]? = some x → R a x
  inserts : ps.Pairwise (fun p q => ∀ k a l b, p = .insert k a →
    q = .insert l b → R a b)

theorem pairwise_block {R : α → α → Prop} {ys : List α} {i j : ℕ}
    (h : ∀ d e x y, i ≤ d → d < e → e < j → ys[d]? = some x →
      ys[e]? = some y → R x y) : (block ys i j).Pairwise R := by
  rw [List.pairwise_iff_getElem]
  intro d e hd he hde
  have hxd := List.getElem?_eq_getElem hd
  have hxe := List.getElem?_eq_getElem he
  rw [getElem?_block] at hxd hxe
  split at hxd
  · split at hxe
    · exact h (i + d) (i + e) _ _ (by omega) (by omega) (by omega) hxd hxe
    · cases hxe
  · cases hxd

theorem pairwise_out {R : α → α → Prop} {ys : List α}
    {ps qs : List (Patch α)} (hord : Ordered ys.length (ps ++ qs))
    (hfit : Fits R ys (ps ++ qs)) : (progress ys ps).out.Pairwise R := by
  induction ps using List.reverseRecOn generalizing qs with
  | nil => exact List.Pairwise.nil
  | append_singleton ps p ih =>
      rw [List.append_assoc, List.singleton_append] at hord hfit
      have hle := done_le_behind ys hord
      have hfree := fun {e} => not_removed_of_block ys (e := e) hord
      have hold := ih hord hfit
      have hmem := fun y => mem_out (y := y) hord
      -- the block that precedes the patch extends the output in order
      have hext : ((progress ys ps).out ++
          block ys (progress ys ps).done p.behind).Pairwise R := by
        refine List.pairwise_append.mpr ⟨hold, ?_, ?_⟩
        · apply pairwise_block
          intro d e x y hd hde he hx hy
          exact hfit.survivors d e x y hde (hfree hd (by omega))
            (hfree (by omega) he) hx hy
        · intro x hx y hy
          obtain ⟨e, hei, hej, hye⟩ := mem_block.mp hy
          rcases (hmem x).mp hx with ⟨d, hd, hrd, hxd⟩ | ⟨k, hk⟩
          · exact hfit.survivors d e x y (by omega) hrd (hfree hei hej) hxd hye
          · have hkd := consumed_le_done ys hord.prefix _ hk
            exact hfit.above k x e y (List.mem_append_left _ hk)
              (by simp only [Patch.consumed] at hkd; omega) (hfree hei hej) hye
      rw [progress_snoc]
      cases p with
      | remove k => exact hext
      | insert k a =>
          have ha : Patch.insert k a ∈ ps ++ .insert k a :: qs :=
            List.mem_append_right _ List.mem_cons_self
          simp only [Patch.behind] at hle hext hfree
          refine List.pairwise_append.mpr ⟨hext, List.pairwise_singleton _ _, ?_⟩
          intro x hx y hy
          rw [List.mem_singleton.mp hy]
          rcases List.mem_append.mp hx with hx | hx
          · rcases (hmem x).mp hx with ⟨d, hd, hrd, hxd⟩ | ⟨l, hl⟩
            · exact hfit.below k a d x ha (by omega) hrd hxd
            · exact (List.pairwise_append.mp hfit.inserts).2.2 _ hl _
                List.mem_cons_self l x k a rfl rfl
          · obtain ⟨e, hei, hej, hxe⟩ := mem_block.mp hx
            exact hfit.below k a e x ha hej (hfree hei hej) hxe

/-- **Order of the patched array**: a relation that fits the old array and
the patches sorts the result. -/
theorem pairwise_patched {R : α → α → Prop} {ys : List α}
    {ps : List (Patch α)} (hord : Ordered ys.length ps)
    (hfit : Fits R ys ps) : (patched ys ps).Pairwise R := by
  have hord' : Ordered ys.length (ps ++ []) := by simpa using hord
  have hfit' : Fits R ys (ps ++ []) := by simpa using hfit
  have hout := pairwise_out hord' hfit'
  refine List.pairwise_append.mpr ⟨hout, ?_, ?_⟩
  · rw [List.pairwise_iff_getElem]
    intro d e hd he hde
    have hxd := List.getElem?_eq_getElem hd
    have hxe := List.getElem?_eq_getElem he
    rw [List.getElem?_drop] at hxd hxe
    exact hfit.survivors _ _ _ _ (by omega)
      (not_removed_of_done hord (Nat.le_add_right _ d))
      (not_removed_of_done hord (Nat.le_add_right _ e)) hxd hxe
  · intro x hx y hy
    obtain ⟨i, hi⟩ := List.mem_iff_getElem?.mp hy
    rw [List.getElem?_drop] at hi
    have hfree := not_removed_of_done hord
      (Nat.le_add_right (progress ys ps).done i)
    rcases (mem_out hord').mp hx with ⟨d, hd, hrd, hxd⟩ | ⟨k, hk⟩
    · rw [List.append_nil] at hrd
      exact hfit.survivors d _ x y (by omega) hrd hfree hxd hi
    · have hkd := consumed_le_done ys hord _ hk
      exact hfit.above k x _ y hk
        (by simp only [Patch.consumed] at hkd; omega) hfree hi

/-! ## §3  Counting -/

def inserts (ps : List (Patch α)) : ℕ := ps.countP Patch.isInsert

def removes (ps : List (Patch α)) : ℕ := ps.countP Patch.isRemove

theorem inserts_append (ps qs : List (Patch α)) :
    inserts (ps ++ qs) = inserts ps + inserts qs :=
  List.countP_append

theorem removes_append (ps qs : List (Patch α)) :
    removes (ps ++ qs) = removes ps + removes qs :=
  List.countP_append

theorem inserts_cons (p : Patch α) (ps : List (Patch α)) :
    inserts (p :: ps) = inserts [p] + inserts ps :=
  inserts_append [p] ps

theorem removes_cons (p : Patch α) (ps : List (Patch α)) :
    removes (p :: ps) = removes [p] + removes ps :=
  removes_append [p] ps

@[simp] theorem inserts_insert (k : ℕ) (a : α) :
    inserts [.insert k a] = 1 := rfl

@[simp] theorem inserts_remove (k : ℕ) :
    inserts [(.remove k : Patch α)] = 0 := rfl

@[simp] theorem removes_insert (k : ℕ) (a : α) :
    removes [.insert k a] = 0 := rfl

@[simp] theorem removes_remove (k : ℕ) :
    removes [(.remove k : Patch α)] = 1 := rfl

/-- Every handled element and every insertion is in the output, the removed
elements excepted. -/
theorem length_out {ys : List α} {ps : List (Patch α)}
    (hord : Ordered ys.length ps) :
    (progress ys ps).out.length + removes ps =
      (progress ys ps).done + inserts ps := by
  induction ps using List.reverseRecOn with
  | nil => rfl
  | append_singleton ps p ih =>
      have hold := ih hord.prefix
      have hle := done_le_behind ys hord
      have hbound := hord.bounded p (by simp)
      rw [progress_snoc, inserts_append, removes_append]
      cases p with
      | remove k =>
          simp only [Patch.behind] at hle
          simp only [Patch.consumed] at hbound
          simp only [patchStep, List.length_append, inserts_remove,
            removes_remove]
          rw [length_block (by omega)]
          omega
      | insert k a =>
          simp only [Patch.behind] at hle
          simp only [Patch.consumed] at hbound
          simp only [patchStep, List.length_append, List.length_singleton,
            inserts_insert, removes_insert]
          rw [length_block (by omega)]
          omega

theorem length_patched {ys : List α} {ps : List (Patch α)}
    (hord : Ordered ys.length ps) :
    (patched ys ps).length + removes ps = ys.length + inserts ps := by
  have hout := length_out hord
  have hdone := done_le ys hord.bounded
  rw [patched, List.length_append, List.length_drop]
  omega

/-- Removals touch distinct elements, so they are no more than the elements
there are left. -/
theorem removes_add_le {n m : ℕ} {ps : List (Patch α)} (hord : Ordered n ps)
    (hm : ∀ p ∈ ps, m ≤ p.behind) (hmn : m ≤ n) : removes ps + m ≤ n := by
  induction ps generalizing m with
  | nil => simpa [removes] using hmn
  | cons p ps ih =>
      have hp := List.pairwise_cons.mp hord.pairwise
      have hbound := hord.bounded p List.mem_cons_self
      have hrest := ih ⟨hp.2, fun q hq =>
        hord.bounded q (List.mem_cons_of_mem _ hq)⟩ hp.1 hbound
      have hmp := hm p List.mem_cons_self
      rw [removes_cons]
      cases p with
      | remove k =>
          simp only [Patch.behind] at hmp
          simp only [Patch.consumed] at hrest
          rw [removes_remove]
          omega
      | insert k a =>
          simp only [Patch.behind] at hmp
          simp only [Patch.consumed] at hrest
          rw [removes_insert]
          omega

/-- With `f` cells to spare, no element that stays is asked to move towards
the front: at least as many of the cells behind it come free as are filled. -/
def HasRoom (n f : ℕ) (ps : List (Patch α)) : Prop :=
  ∀ e, e < n → ¬ Removed ps e →
    ps.countP (fun p => p.isInsert && decide (p.behind ≤ e)) ≤
      f + ps.countP (fun p => p.isRemove && decide (p.behind < e))

/-- Around an element that stays, the patches behind it are a first part of
the list. -/
theorem count_split {e : ℕ} {ps qs : List (Patch α)}
    (hps : ∀ p ∈ ps, p.behind ≤ e) (hqs : ∀ q ∈ qs, e < q.behind)
    (hrem : ¬ Removed (ps ++ qs) e) :
    (ps ++ qs).countP (fun p => p.isInsert && decide (p.behind ≤ e)) =
        inserts ps ∧
      (ps ++ qs).countP (fun p => p.isRemove && decide (p.behind < e)) =
        removes ps := by
  have hlt : ∀ p ∈ ps, p.isRemove = true → p.behind < e := by
    intro p hp hpr
    cases p with
    | remove k =>
        refine Nat.lt_of_le_of_ne (hps _ hp) ?_
        rintro rfl
        exact hrem (List.mem_append_left _ hp)
    | insert k a => cases hpr
  have hins : qs.countP (fun p => p.isInsert && decide (p.behind ≤ e)) = 0 :=
    List.countP_eq_zero.mpr fun q hq => by
      have := hqs q hq
      simp only [Bool.and_eq_true, decide_eq_true_eq, not_and]
      omega
  have hrms : qs.countP (fun p => p.isRemove && decide (p.behind < e)) = 0 :=
    List.countP_eq_zero.mpr fun q hq => by
      have := hqs q hq
      simp only [Bool.and_eq_true, decide_eq_true_eq, not_and]
      omega
  rw [List.countP_append, List.countP_append, hins, hrms, Nat.add_zero,
    Nat.add_zero]
  refine ⟨List.countP_congr fun p hp => ?_, List.countP_congr fun p hp => ?_⟩
  · simp [hps p hp]
  · simpa using hlt p hp

/-- Room, seen by the pass: wherever a block is to be moved, the insertions
made so far are covered. -/
def Covered (ys : List α) (f : ℕ) (all : List (Patch α)) : Prop :=
  ∀ ps p, ps ++ [p] <+: all → (progress ys ps).done < p.behind →
    inserts ps ≤ f + removes ps

theorem covered_nil (ys : List α) (f : ℕ) : Covered ys f [] := by
  intro ps p hpre
  simp at hpre

theorem covered_snoc {ys : List α} {f : ℕ} {ps : List (Patch α)}
    {p : Patch α} :
    Covered ys f (ps ++ [p]) ↔ Covered ys f ps ∧
      ((progress ys ps).done < p.behind → inserts ps ≤ f + removes ps) := by
  constructor
  · intro h
    exact ⟨fun ps₁ q hpre => h ps₁ q (hpre.trans (List.prefix_append _ _)),
      h ps p (List.prefix_refl _)⟩
  · rintro ⟨hps, hp⟩ ps₁ q hpre
    rcases List.prefix_concat_iff.mp hpre with heq | hpre
    · obtain ⟨rfl, rfl⟩ := List.append_inj' heq rfl |>.imp id
        (List.singleton_inj.mp ·)
      exact hp
    · exact hps ps₁ q hpre

theorem HasRoom.block {ys : List α} {f : ℕ} {ps qs : List (Patch α)}
    {p : Patch α} (h : HasRoom ys.length f (ps ++ p :: qs))
    (hord : Ordered ys.length (ps ++ p :: qs))
    (hlt : (progress ys ps).done < p.behind) : inserts ps ≤ f + removes ps := by
  have hbound := hord.bounded p (by simp)
  have hpc := p.behind_le_consumed
  have hfree := not_removed_of_block ys hord (Nat.le_refl _) hlt
  have hps : ∀ q ∈ ps, q.behind ≤ (progress ys ps).done := fun q hq =>
    Nat.le_trans q.behind_le_consumed (consumed_le_done ys hord.prefix q hq)
  have hqs : ∀ q ∈ p :: qs, (progress ys ps).done < q.behind := by
    intro q hq
    rcases List.mem_cons.mp hq with rfl | hq
    · exact hlt
    · have hpq := (List.pairwise_append.mp hord.pairwise).2.1
      have := (List.pairwise_cons.mp hpq).1 q hq
      omega
  obtain ⟨hins, hrem⟩ := count_split hps hqs hfree
  have hroom := h _ (by omega) hfree
  rwa [hins, hrem] at hroom

/-- **Room**: there is room for the elements that stay exactly when the pass
finds every block covered. -/
theorem hasRoom_iff_covered {ys : List α} {f : ℕ} {all : List (Patch α)}
    (hord : Ordered ys.length all) (htotal : inserts all = f + removes all) :
    HasRoom ys.length f all ↔ Covered ys f all := by
  constructor
  · rintro h ps p ⟨qs, rfl⟩ hlt
    rw [List.append_assoc, List.singleton_append] at h hord
    exact h.block hord hlt
  intro h e he hrem
  -- the patches behind the element, and the rest
  obtain ⟨ps, qs, hall, hps, hhead⟩ : ∃ ps qs, all = ps ++ qs ∧
      (∀ p ∈ ps, p.behind ≤ e) ∧ ∀ p, qs.head? = some p → e < p.behind := by
    refine ⟨all.takeWhile fun p => decide (p.behind ≤ e),
      all.dropWhile fun p => decide (p.behind ≤ e),
      List.takeWhile_append_dropWhile.symm, fun p hp => ?_, fun p hp => ?_⟩
    · simpa using List.mem_takeWhile_imp hp
    · have := List.head?_dropWhile_not (fun p => decide (p.behind ≤ e)) all
      rw [hp] at this
      simpa using this
  subst hall
  have hqs : ∀ q ∈ qs, e < q.behind := by
    intro q hq
    cases qs with
    | nil => cases hq
    | cons p qs =>
        have hp := hhead p rfl
        rcases List.mem_cons.mp hq with rfl | hq
        · exact hp
        · have hpq := (List.pairwise_append.mp hord.pairwise).2.1
          have := (List.pairwise_cons.mp hpq).1 q hq
          have := p.behind_le_consumed
          omega
  obtain ⟨hins, hrms⟩ := count_split hps hqs hrem
  rw [hins, hrms]
  cases qs with
  | nil => simpa using Nat.le_of_eq htotal
  | cons p qs =>
      refine h ps p (by simp) (Nat.lt_of_le_of_lt (done_le ys fun q hq => ?_)
        (hhead p rfl))
      have hle := hps q hq
      cases q with
      | remove k =>
          refine Nat.lt_of_le_of_ne hle ?_
          rintro rfl
          exact hrem (List.mem_append_left _ hq)
      | insert k a => exact hle

/-! ## §4  The pass in place -/

/-- `memmove` inside one array: `len` elements from `src` to `dest`. -/
def memmove (A : List α) (dest src len : ℕ) : List α :=
  A.take dest ++ (A.drop src).take len ++ A.drop (dest + len)

theorem length_memmove (A : List α) (dest src len : ℕ)
    (hd : dest + len ≤ A.length) (hs : src + len ≤ A.length) :
    (memmove A dest src len).length = A.length := by
  simp only [memmove, List.length_append, List.length_take, List.length_drop]
  omega

theorem getElem?_memmove (A : List α) (dest src len i : ℕ)
    (hd : dest + len ≤ A.length) (hs : src + len ≤ A.length) :
    (memmove A dest src len)[i]? =
      if dest ≤ i ∧ i < dest + len then A[i - dest + src]? else A[i]? := by
  have htake : (A.take dest).length = dest := by
    rw [List.length_take]; omega
  have hmid : ((A.drop src).take len).length = len := by
    rw [List.length_take, List.length_drop]; omega
  rw [memmove, List.append_assoc]
  by_cases h₁ : i < dest
  · rw [List.getElem?_append_left (by omega), List.getElem?_take,
      if_pos h₁, if_neg (by omega)]
  · rw [List.getElem?_append_right (by omega), htake]
    by_cases h₂ : i < dest + len
    · rw [List.getElem?_append_left (by omega), List.getElem?_take,
        if_pos (by omega), List.getElem?_drop, if_pos ⟨by omega, h₂⟩,
        Nat.add_comm src]
    · rw [List.getElem?_append_right (by omega), hmid, List.getElem?_drop,
        if_neg (by omega)]
      congr 1
      omega

theorem memmove_self {A : List α} {i len : ℕ} (h : i + len ≤ A.length) :
    memmove A i i len = A := by
  apply List.ext_getElem?
  intro j
  rw [getElem?_memmove A i i len j h h]
  split
  · congr 1
    omega
  · rfl

/-- The array holds a pass in progress: its back part is what the pass has
produced, its front part is the old array as far as neither the handled
elements nor the produced ones reach. The back part may overlap the elements
still to be handled: insertions may run ahead of the removals they go with. -/
structure InPlace (ys : List α) (st : Progress α) (A : List α) : Prop where
  fits : st.out.length ≤ A.length
  back : ∀ j, j < st.out.length → A[A.length - 1 - j]? = st.out[j]?
  front : ∀ e, st.done ≤ e → e < ys.length →
    ys.length - 1 - e + st.out.length < A.length →
    A[ys.length - 1 - e]? = ys[e]?

theorem InPlace.move {ys A : List α} {st : Progress α} {k : ℕ}
    (h : InPlace ys st A) (hk : st.done ≤ k) (hn : k ≤ ys.length)
    (hroom : ys.length - st.done + st.out.length ≤ A.length) :
    InPlace ys ⟨k, st.out ++ block ys st.done k⟩
      (memmove A (A.length - st.out.length - (k - st.done)) (ys.length - k)
        (k - st.done)) := by
  have hlen := length_memmove A (A.length - st.out.length - (k - st.done))
    (ys.length - k) (k - st.done) (by omega) (by omega)
  have hget := fun i => getElem?_memmove A
    (A.length - st.out.length - (k - st.done)) (ys.length - k) (k - st.done) i
    (by omega) (by omega)
  have hblk : (block ys st.done k).length = k - st.done := length_block hn
  refine ⟨?_, ?_, ?_⟩
  · rw [hlen, List.length_append, hblk]
    omega
  · intro j hj
    rw [List.length_append, hblk] at hj
    rw [hlen, hget]
    by_cases hjo : j < st.out.length
    · rw [if_neg (by omega), h.back j hjo, List.getElem?_append_left hjo]
    · rw [if_pos (by omega), List.getElem?_append_right (by omega),
        getElem?_block, if_pos (by omega), ← h.front _ (by omega) (by omega)
          (by omega)]
      congr 1
      omega
  · intro e hke hen hlt
    rw [List.length_append, hblk, hlen] at hlt
    rw [hget, if_neg (by simp only at hke; omega)]
    exact h.front e (by simp only at hke; omega) hen (by omega)

theorem InPlace.stay {ys A : List α} {st : Progress α}
    (h : InPlace ys st A) :
    InPlace ys ⟨st.done, st.out ++ block ys st.done st.done⟩ A := by
  have hnil : block ys st.done st.done = [] := by simp [block]
  rw [hnil, List.append_nil]
  exact h

theorem InPlace.write {ys A : List α} {done : ℕ} {out : List α} (a : α)
    (h : InPlace ys ⟨done, out⟩ A) (hroom : out.length < A.length) :
    InPlace ys ⟨done, out ++ [a]⟩ (A.set (A.length - 1 - out.length) a) := by
  refine ⟨?_, ?_, ?_⟩
  · rw [List.length_set, List.length_append]
    exact hroom
  · intro j hj
    rw [List.length_append, List.length_singleton] at hj
    rw [List.length_set, List.getElem?_set]
    by_cases hjo : j < out.length
    · rw [if_neg (by omega), h.back j hjo, List.getElem?_append_left hjo]
    · have hje : j = out.length := by omega
      rw [if_pos (by omega), if_pos (by omega), hje]
      simp
  · intro e he hn hlt
    rw [List.length_set, List.length_append, List.length_singleton] at hlt
    rw [List.getElem?_set, if_neg (by omega)]
    exact h.front e he hn (by simp only; omega)

theorem InPlace.skip {ys A : List α} {done : ℕ} {out : List α}
    (h : InPlace ys ⟨done, out⟩ A) : InPlace ys ⟨done + 1, out⟩ A :=
  ⟨h.fits, h.back, fun e he => h.front e (Nat.le_of_succ_le he)⟩

/-- **End of the pass**: once the array has the result's length, it is the
patched array. -/
theorem InPlace.eq_patched {ys A : List α} {ps : List (Patch α)}
    (h : InPlace ys (progress ys ps) A)
    (hdone : (progress ys ps).done ≤ ys.length)
    (hlen : A.length = (patched ys ps).length) :
    A = (patched ys ps).reverse := by
  rw [patched, List.length_append, List.length_drop] at hlen
  apply List.ext_getElem?
  intro i
  by_cases hi : i < A.length
  · rw [List.getElem?_reverse (by
      rw [patched, List.length_append, List.length_drop]; omega), patched,
      List.length_append, List.length_drop]
    by_cases hb : A.length - 1 - i < (progress ys ps).out.length
    · rw [← hlen, List.getElem?_append_left hb, ← h.back _ hb]
      congr 1
      omega
    · rw [← hlen, List.getElem?_append_right (by omega), List.getElem?_drop,
        ← h.front _ (by omega) (by omega) (by omega)]
      congr 1
      omega
  · rw [List.getElem?_eq_none (by omega), List.getElem?_eq_none (by
      rw [List.length_reverse, patched, List.length_append, List.length_drop]
      omega)]

end PatchMerge
