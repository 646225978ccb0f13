import RatingService.Service.UserTables

/-!
# The merge loop

The loop of `recalculate` over the rating patches, against the abstract pass
of `PatchMerge`: the vector always holds the pass in progress, the running
`offset` is the number of free cells in front of the elements already placed,
and the loop fails, in the assertion of `ratingMoveBlock`, exactly where a
block would have to move while that number is negative.

- §1: pointers.
- §2: one block move.
- §3: one patch, and the loop.
- §4: the renumbering.
- §5: the merge as a whole.
-/

namespace RatingService

open PatchMerge

variable {dm : DataModel} {n : ℕ}

/-! ## §1  Pointers -/

namespace CoreRatingData

def Live (d : CoreRatingData dm) (p : UserRef) : Prop :=
  ∃ u, d.activeUsers.lookup p.owner = some u ∧ u.serial = p.serial

theorem deref_eq_some {d : CoreRatingData dm} {p : UserRef}
    {u : FullUserData dm} :
    d.deref p = some u ↔
      d.activeUsers.lookup p.owner = some u ∧ u.serial = p.serial := by
  unfold deref
  rw [Option.filter_eq_some_iff]
  simp

theorem load_of_lookup {d : CoreRatingData dm} {p : UserRef}
    {u : FullUserData dm} (h : d.activeUsers.lookup p.owner = some u)
    (hs : u.serial = p.serial) : d.load p = .ok u := by
  rw [load, deref_eq_some.mpr ⟨h, hs⟩]

theorem modify_of_lookup {d : CoreRatingData dm} {p : UserRef}
    {u : FullUserData dm} (f : FullUserData dm → FullUserData dm)
    (h : d.activeUsers.lookup p.owner = some u) (hs : u.serial = p.serial) :
    d.modify p f =
      .ok { d with activeUsers := d.activeUsers.insert p.owner (f u) } := by
  rw [modify, load_of_lookup h hs]
  rfl

theorem live_iff_rated {d : CoreRatingData dm} {p : UserRef} :
    d.Live p ↔ ∃ r, d.rated p.owner = some r ∧ r.serial = p.serial := by
  constructor
  · rintro ⟨u, hu, hs⟩
    exact ⟨u.rated, by rw [rated, hu]; rfl, hs⟩
  · rintro ⟨r, hr, hs⟩
    obtain ⟨u, hu, rfl⟩ := Option.map_eq_some_iff.mp hr
    exact ⟨u, hu, hs⟩

end CoreRatingData

/-! ## §2  One block move -/

/-- **The block move**: where the pass has a block of elements to bring
behind the free cells, the move brings it there if no cell is missing. -/
theorem ratingMoveBlock_ok {d : CoreRatingData dm} {ys : List UserRef}
    {st : Progress UserRef} {k : ℕ} {pos length offset : ℤ}
    (hin : InPlace ys st d.rating) (hk : st.done ≤ k) (hn : k ≤ ys.length)
    (hpos : pos = ys.length - k) (hlength : length = k - st.done)
    (hoffset : offset + (ys.length - st.done) + st.out.length =
      d.rating.length)
    (hroom : st.done < k → 0 ≤ offset) :
    ∃ A, d.ratingMoveBlock pos length offset = .ok { d with rating := A } ∧
      InPlace ys ⟨k, st.out ++ block ys st.done k⟩ A ∧
      A.length = d.rating.length := by
  unfold CoreRatingData.ratingMoveBlock
  by_cases hblock : st.done < k
  · have hoff := hroom hblock
    have hmove := hin.move hk hn (by omega)
    by_cases hzero : offset = 0
    · -- nothing to bridge: the block is in place already
      refine ⟨d.rating, ?_, ?_, rfl⟩
      · rw [if_pos (Or.inr hzero)]
      · rw [show d.rating.length - st.out.length - (k - st.done) =
          ys.length - k by omega] at hmove
        rwa [memmove_self (by omega)] at hmove
    · refine ⟨_, ?_, hmove, length_memmove _ _ _ _ (by omega) (by omega)⟩
      have hdest : (pos + offset).toNat =
          d.rating.length - st.out.length - (k - st.done) := by omega
      have hsrc : pos.toNat = ys.length - k := by omega
      have hlen : length.toNat = k - st.done := by omega
      rw [if_neg (by omega), assert_of (by omega), ok_bind, hdest, hsrc, hlen,
        if_pos (by omega)]
  · have hkd : k = st.done := by omega
    subst hkd
    refine ⟨d.rating, ?_, hin.stay, rfl⟩
    rw [if_pos (Or.inl (by omega))]

/-- With cells missing, the assertion of the block move fails. -/
theorem ratingMoveBlock_fails (d : CoreRatingData dm) (pos : ℤ)
    {length offset : ℤ} (hlength : 0 < length) (hoffset : offset < 0) :
    d.ratingMoveBlock pos length offset = .error .assertion := by
  unfold CoreRatingData.ratingMoveBlock
  rw [if_neg (by omega), assert_not (by omega)]
  rfl

/-- **The insertion**: it writes the next element of the pass, in the cell in
front of what is in place. -/
theorem ratingInsert_ok (d : CoreRatingData dm) {ys out : List UserRef}
    {done : ℕ} (a : UserRef) {pos : ℤ} (hin : InPlace ys ⟨done, out⟩ d.rating)
    (hpos : pos = d.rating.length - 1 - out.length)
    (hroom : out.length < d.rating.length) :
    ∃ A, d.ratingInsert pos a = .ok { d with rating := A } ∧
      InPlace ys ⟨done, out ++ [a]⟩ A ∧ A.length = d.rating.length := by
  refine ⟨_, ?_, hin.write a hroom, List.length_set⟩
  have hcell : pos.toNat = d.rating.length - 1 - out.length := by omega
  rw [CoreRatingData.ratingInsert, assert_of (by omega), ok_bind, hcell]

/-! ## §3  The loop -/

def RatingPatchEntry.toPatch (p : RatingPatchEntry dm) : Patch UserRef :=
  match p.changeType with
  | .oldPosition => .remove p.elementsAfter.toNat
  | .newPosition => .insert p.elementsAfter.toNat p.userData

theorem RatingPatchEntry.behind_toPatch (p : RatingPatchEntry dm) :
    p.toPatch.behind = p.elementsAfter.toNat := by
  unfold toPatch
  split <;> rfl

def settle (users : ActiveUsersMap dm) (p : RatingPatchEntry dm) :
    ActiveUsersMap dm :=
  match p.changeType with
  | .oldPosition => users
  | .newPosition =>
      match users.lookup p.userData.owner with
      | some u => users.insert p.userData.owner { u with amountWon := p.amountWon }
      | none => users

theorem settle_lookup {users : ActiveUsersMap dm} {id : IdT}
    {u : FullUserData dm} (p : RatingPatchEntry dm)
    (hu : users.lookup id = some u) :
    (settle users p).lookup id = some { u with
      amountWon := if p.changeType = .newPosition ∧ p.userData.owner = id
        then p.amountWon else u.amountWon } := by
  unfold settle
  cases hct : p.changeType with
  | oldPosition => simpa using hu
  | newPosition =>
      by_cases hid : p.userData.owner = id
      · subst hid
        simp [hu]
      · simp only [hid, and_false, if_false]
        split
        · exact (AList.lookup_insert_ne (Ne.symm hid)).trans hu
        · exact hu

theorem foldl_settle_lookup {users : ActiveUsersMap dm} {id : IdT}
    {u : FullUserData dm} (ps : List (RatingPatchEntry dm))
    (hu : users.lookup id = some u) :
    ∃ w, (ps.foldl settle users).lookup id = some { u with amountWon := w } := by
  induction ps using List.reverseRecOn with
  | nil => exact ⟨u.amountWon, hu⟩
  | append_singleton ps p ih =>
      obtain ⟨w, hw⟩ := ih
      have hstep := settle_lookup p hw
      rw [List.foldl_append]
      exact ⟨_, hstep⟩

theorem foldl_settle_none {users : ActiveUsersMap dm} {id : IdT}
    (ps : List (RatingPatchEntry dm)) (hu : users.lookup id = none) :
    (ps.foldl settle users).lookup id = none := by
  induction ps generalizing users with
  | nil => exact hu
  | cons p ps ih =>
      refine ih ?_
      unfold settle
      split
      · exact hu
      · split
        · rename_i v hv
          have hid : id ≠ p.userData.owner := by
            rintro rfl
            exact Option.some_ne_none v (hv.symm.trans hu)
          exact (AList.lookup_insert_ne hid).trans hu
        · exact hu

/-- If all insertions agree on a user's winnings, he has those in the end, or
no insertion is for him. -/
theorem foldl_settle_amount {N : IdT → MonetaryT dm} {id : IdT}
    {u v : FullUserData dm} {users : ActiveUsersMap dm}
    (hu : users.lookup id = some u) {ps : List (RatingPatchEntry dm)}
    (hN : ∀ p ∈ ps, p.changeType = .newPosition →
      p.amountWon = N p.userData.owner)
    (hv : (ps.foldl settle users).lookup id = some v) :
    v.amountWon = N id ∨ v.amountWon = u.amountWon ∧
      ∀ p ∈ ps, p.changeType = .newPosition → p.userData.owner ≠ id := by
  induction ps using List.reverseRecOn generalizing v with
  | nil =>
      obtain rfl : u = v := Option.some_inj.mp (hu.symm.trans hv)
      exact Or.inr ⟨rfl, fun p hp => absurd hp (by simp)⟩
  | append_singleton ps p ih =>
      obtain ⟨w, hw⟩ := foldl_settle_lookup ps hu
      have hbefore := ih (fun q hq => hN q (List.mem_append_left _ hq)) hw
      rw [List.foldl_append] at hv
      have hstep := settle_lookup p hw
      obtain rfl := Option.some_inj.mp (hstep.symm.trans hv)
      by_cases hp : p.changeType = .newPosition ∧ p.userData.owner = id
      · left
        rw [if_pos hp, hN p (by simp) hp.1, hp.2]
      · rw [if_neg hp]
        refine hbefore.imp_right fun hc => ⟨hc.1, fun q hq hqn hqo => ?_⟩
        rcases List.mem_append.mp hq with hq | hq
        · exact hc.2 q hq hqn hqo
        · rw [List.mem_singleton.mp hq] at hqn hqo
          exact hp ⟨hqn, hqo⟩

theorem live_settled {d d' : CoreRatingData dm}
    {ps : List (RatingPatchEntry dm)} {p : UserRef} (h : d.Live p)
    (hd' : d'.activeUsers = ps.foldl settle d.activeUsers) : d'.Live p := by
  obtain ⟨u, hu, hs⟩ := h
  obtain ⟨w, hw⟩ := foldl_settle_lookup ps hu
  rw [← hd'] at hw
  exact ⟨_, hw, hs⟩

/-- What the patches have to be like for the loop over them to make sense:
in pass order, as many cells added as there are insertions more than
removals, every inserted pointer alive. -/
structure PatchesFit (d : CoreRatingData dm) (f : ℕ)
    (patches : List (RatingPatchEntry dm)) : Prop where
  nonneg : ∀ p ∈ patches, 0 ≤ p.elementsAfter
  ordered : Ordered d.rating.length (patches.map RatingPatchEntry.toPatch)
  total : inserts (patches.map RatingPatchEntry.toPatch) =
    f + removes (patches.map RatingPatchEntry.toPatch)
  live : ∀ p ∈ patches, p.changeType = .newPosition → d.Live p.userData

/-- The state of the loop once the patches `ps` are applied. -/
structure MergeInv (d : CoreRatingData dm) (f : ℕ)
    (ps : List (RatingPatchEntry dm)) (st : MergeState dm) : Prop where
  inPlace : InPlace d.rating.reverse
    (progress d.rating.reverse (ps.map RatingPatchEntry.toPatch))
    st.userData.rating
  length : st.userData.rating.length = d.rating.length + f
  offset : st.offset = f + removes (ps.map RatingPatchEntry.toPatch) -
    inserts (ps.map RatingPatchEntry.toPatch)
  oldPositions : st.oldPositions = removes (ps.map RatingPatchEntry.toPatch)
  lengthDone : st.lengthDone + removes (ps.map RatingPatchEntry.toPatch) =
    (progress d.rating.reverse (ps.map RatingPatchEntry.toPatch)).done
  userData : st.userData = { d with
    rating := st.userData.rating
    activeUsers := ps.foldl settle d.activeUsers }

section Loop

variable {d : CoreRatingData dm} {f : ℕ} {ps qs : List (RatingPatchEntry dm)}
  {p : RatingPatchEntry dm} {st : MergeState dm}

theorem MergeInv.numbers (hinv : MergeInv d f ps st)
    (hfit : PatchesFit d f (ps ++ p :: qs)) :
    (progress d.rating.reverse (ps.map RatingPatchEntry.toPatch)).done ≤
        p.elementsAfter.toNat ∧
      p.elementsAfter.toNat ≤ d.rating.reverse.length ∧
      p.elementsAfter - st.lengthDone - st.oldPositions =
        (p.elementsAfter.toNat : ℤ) -
          (progress d.rating.reverse (ps.map RatingPatchEntry.toPatch)).done ∧
      st.offset + (d.rating.reverse.length -
          (progress d.rating.reverse (ps.map RatingPatchEntry.toPatch)).done) +
        (progress d.rating.reverse
          (ps.map RatingPatchEntry.toPatch)).out.length =
        st.userData.rating.length := by
  have hord := hfit.ordered
  rw [← List.length_reverse, List.map_append, List.map_cons] at hord
  have hle := done_le_behind d.rating.reverse hord
  have hbound := hord.bounded p.toPatch (by simp)
  have hbc := p.toPatch.behind_le_consumed
  have hout := length_out hord.prefix
  have hnonneg := hfit.nonneg p (by simp)
  have hlen := hinv.length
  have hold := hinv.oldPositions
  have hdone := hinv.lengthDone
  have hoff := hinv.offset
  rw [p.behind_toPatch] at hle hbc
  rw [List.length_reverse] at hbound ⊢
  refine ⟨hle, by omega, by omega, by omega⟩

theorem insert_fits (hfit : PatchesFit d f (ps ++ p :: qs))
    (hnew : p.changeType = .newPosition) :
    p.elementsAfter.toNat + inserts (ps.map RatingPatchEntry.toPatch) <
      d.rating.length + f + removes (ps.map RatingPatchEntry.toPatch) := by
  have hord := hfit.ordered
  have htotal := hfit.total
  have hpatch : p.toPatch = .insert p.elementsAfter.toNat p.userData := by
    rw [RatingPatchEntry.toPatch, hnew]
  rw [List.map_append, List.map_cons, hpatch] at hord htotal
  have hrest := List.pairwise_cons.mp (List.pairwise_append.mp hord.pairwise).2.1
  have hrm := removes_add_le
    ⟨hrest.2, fun q hq => hord.bounded q (by simp [hq])⟩ hrest.1
    (hord.bounded (.insert p.elementsAfter.toNat p.userData) (by simp))
  rw [inserts_append, removes_append, inserts_cons, removes_cons,
    inserts_insert, removes_insert] at htotal
  simp only [Patch.consumed] at hrm
  omega

/-- **One patch applied**: with the room the next block needs, the loop body
completes and leaves the pass one patch further. -/
theorem mergePatch_ok (hinv : MergeInv d f ps st)
    (hfit : PatchesFit d f (ps ++ p :: qs))
    (hroom : (progress d.rating.reverse
        (ps.map RatingPatchEntry.toPatch)).done < p.elementsAfter.toNat →
      inserts (ps.map RatingPatchEntry.toPatch) ≤
        f + removes (ps.map RatingPatchEntry.toPatch)) :
    ∃ st', mergePatch d.rating.length st p = .ok st' ∧
      MergeInv d f (ps ++ [p]) st' := by
  obtain ⟨hdone, hbound, hblock, hcells⟩ := hinv.numbers hfit
  have hnonneg := hfit.nonneg p (by simp)
  have hoffset := hinv.offset
  have hold := hinv.oldPositions
  have hlength := hinv.length
  have hlengthDone := hinv.lengthDone
  obtain ⟨A, hmove, hin, hlen⟩ := ratingMoveBlock_ok hinv.inPlace hdone hbound
    (show (d.rating.length : ℤ) - p.elementsAfter = _ by
      rw [List.length_reverse]; omega) hblock hcells
    (fun h => by have := hroom h; omega)
  have hprog : progress d.rating.reverse
      ((ps ++ [p]).map RatingPatchEntry.toPatch) =
      patchStep d.rating.reverse (progress d.rating.reverse
        (ps.map RatingPatchEntry.toPatch)) p.toPatch := by
    rw [List.map_append]
    exact progress_snoc _ _ _
  have hins : inserts ((ps ++ [p]).map RatingPatchEntry.toPatch) =
      inserts (ps.map RatingPatchEntry.toPatch) + inserts [p.toPatch] := by
    rw [List.map_append]
    exact inserts_append _ _
  have hrms : removes ((ps ++ [p]).map RatingPatchEntry.toPatch) =
      removes (ps.map RatingPatchEntry.toPatch) + removes [p.toPatch] := by
    rw [List.map_append]
    exact removes_append _ _
  have hfold : (ps ++ [p]).foldl settle d.activeUsers =
      settle (ps.foldl settle d.activeUsers) p := by
    rw [List.foldl_append]
    rfl
  unfold mergePatch
  cases hct : p.changeType with
  | oldPosition =>
      have hpatch : p.toPatch = .remove p.elementsAfter.toNat := by
        rw [RatingPatchEntry.toPatch, hct]
      rw [hpatch] at hprog hins hrms
      rw [inserts_remove] at hins
      rw [removes_remove] at hrms
      refine ⟨_, by simp only [hmove]; rfl, ?_⟩
      constructor
      · rw [hprog]
        exact hin.skip
      · exact hlen.trans hlength
      · simp only [hins, hrms]
        omega
      · simp only [hrms]
        omega
      · rw [hprog]
        simp only [hrms, patchStep]
        omega
      · rw [hfold, settle, hct]
        simp only
        rw [hinv.userData]
  | newPosition =>
      have hpatch : p.toPatch = .insert p.elementsAfter.toNat p.userData := by
        rw [RatingPatchEntry.toPatch, hct]
      rw [hpatch] at hprog hins hrms
      rw [inserts_insert] at hins
      rw [removes_insert] at hrms
      have hcell := insert_fits hfit hct
      rw [List.length_reverse] at hcells hbound
      have hlenBlock : (block d.rating.reverse (progress d.rating.reverse
          (ps.map RatingPatchEntry.toPatch)).done p.elementsAfter.toNat).length =
          p.elementsAfter.toNat - (progress d.rating.reverse
            (ps.map RatingPatchEntry.toPatch)).done :=
        length_block (by rw [List.length_reverse]; exact hbound)
      obtain ⟨B, hinsert, hinB, hlenB⟩ := ratingInsert_ok
        { st.userData with rating := A } p.userData hin
        (show (d.rating.length : ℤ) - p.elementsAfter + (st.offset - 1) = _ by
          rw [List.length_append, hlenBlock]; simp only; omega)
        (by rw [List.length_append, hlenBlock]; simp only; omega)
      have husers : st.userData.activeUsers = ps.foldl settle d.activeUsers :=
        congrArg CoreRatingData.activeUsers hinv.userData
      obtain ⟨u, hu, hserial⟩ := live_settled (hfit.live p (by simp) hct) husers
      have hmodify := CoreRatingData.modify_of_lookup
        (d := { st.userData with rating := B })
        (fun u => { u with amountWon := p.amountWon }) hu hserial
      refine ⟨_, by simp only [hmove, hinsert, hmodify, ok_bind]; rfl, ?_⟩
      constructor
      · rw [hprog]
        exact hinB
      · exact hlenB.trans (hlen.trans hlength)
      · simp only [hins, hrms]
        omega
      · simp only [hrms]
        exact hold
      · rw [hprog]
        simp only [hrms, patchStep]
        omega
      · rw [hfold, settle, hct]
        rw [husers] at hu
        simp only [hu, husers]
        rw [hinv.userData]

/-- Where the room is missing, the loop body fails in the assertion of the
block move. -/
theorem mergePatch_fails (hinv : MergeInv d f ps st)
    (hfit : PatchesFit d f (ps ++ p :: qs))
    (hblock : (progress d.rating.reverse
      (ps.map RatingPatchEntry.toPatch)).done < p.elementsAfter.toNat)
    (hroom : ¬ inserts (ps.map RatingPatchEntry.toPatch) ≤
      f + removes (ps.map RatingPatchEntry.toPatch)) :
    mergePatch d.rating.length st p = .error .assertion := by
  obtain ⟨-, -, hlength, -⟩ := hinv.numbers hfit
  have hoffset := hinv.offset
  have hmove := ratingMoveBlock_fails st.userData
    (d.rating.length - p.elementsAfter)
    (show 0 < p.elementsAfter - st.lengthDone - st.oldPositions by omega)
    (show st.offset < 0 by omega)
  unfold mergePatch
  split <;> simp only [hmove] <;> rfl

/-- The loop over a first part of the patches: it runs through as long as the
blocks it moves are covered. -/
theorem foldlM_mergePatch_covered {st₀ : MergeState dm}
    (hinit : MergeInv d f [] st₀) (hfit : PatchesFit d f (ps ++ qs)) :
    (Covered d.rating.reverse f (ps.map RatingPatchEntry.toPatch) ∧
      ∃ st, ps.foldlM (mergePatch d.rating.length) st₀ = .ok st ∧
        MergeInv d f ps st) ∨
    (¬ Covered d.rating.reverse f (ps.map RatingPatchEntry.toPatch) ∧
      ps.foldlM (mergePatch d.rating.length) st₀ = .error .assertion) := by
  induction ps using List.reverseRecOn generalizing qs with
  | nil => exact Or.inl ⟨covered_nil _ _, st₀, rfl, hinit⟩
  | append_singleton ps p ih =>
      rw [List.append_assoc, List.singleton_append] at hfit
      rw [List.map_append, List.map_singleton, covered_snoc, p.behind_toPatch,
        List.foldlM_append]
      rcases ih hfit with ⟨hcov, st, hst, hinv⟩ | ⟨hcov, hst⟩
      · rw [hst, ok_bind, List.foldlM_cons]
        by_cases hroom : (progress d.rating.reverse
            (ps.map RatingPatchEntry.toPatch)).done < p.elementsAfter.toNat →
          inserts (ps.map RatingPatchEntry.toPatch) ≤
            f + removes (ps.map RatingPatchEntry.toPatch)
        · obtain ⟨st', hst', hinv'⟩ := mergePatch_ok hinv hfit hroom
          exact Or.inl ⟨⟨hcov, hroom⟩, st', by rw [hst']; rfl, hinv'⟩
        · obtain ⟨hblock, hmissing⟩ := Classical.not_imp.mp hroom
          refine Or.inr ⟨fun h => hroom h.2, ?_⟩
          rw [mergePatch_fails hinv hfit hblock hmissing]
          rfl
      · refine Or.inr ⟨fun h => hcov h.1, ?_⟩
        rw [hst]
        rfl

/-- **The merge loop** runs through exactly when there is room for every
element that stays, and fails in the assertion otherwise. -/
theorem foldlM_mergePatch {st₀ : MergeState dm} (hinit : MergeInv d f [] st₀)
    (hfit : PatchesFit d f ps) :
    (HasRoom d.rating.length f (ps.map RatingPatchEntry.toPatch) ∧
      ∃ st, ps.foldlM (mergePatch d.rating.length) st₀ = .ok st ∧
        MergeInv d f ps st) ∨
    (¬ HasRoom d.rating.length f (ps.map RatingPatchEntry.toPatch) ∧
      ps.foldlM (mergePatch d.rating.length) st₀ = .error .assertion) := by
  have hord := hfit.ordered
  rw [← List.length_reverse] at hord
  have hcovered := hasRoom_iff_covered hord hfit.total
  rw [List.length_reverse] at hcovered
  rw [hcovered]
  rw [← List.append_nil ps] at hfit
  exact foldlM_mergePatch_covered hinit hfit

end Loop

/-! ## §4  The renumbering -/

/-- What the renumbering leaves behind: every listed record with its position
in it, all else as it was. -/
structure Renumbered (d d' : CoreRatingData dm) : Prop where
  rating : d'.rating = d.rating
  silentUsers : d'.silentUsers = d.silentUsers
  nextSerial : d'.nextSerial = d.nextSerial
  listed : ∀ (i : ℕ) p, d.rating[i]? = some p →
    ∃ u, d.activeUsers.lookup p.owner = some u ∧ u.serial = p.serial ∧
      d'.activeUsers.lookup p.owner = some { u with rating := i }
  unlisted : ∀ id, id ∉ d.rating.map UserRef.owner →
    d'.activeUsers.lookup id = d.activeUsers.lookup id

/-- Writing a record without touching its identity leaves all pointers
alive. -/
theorem live_insert {d : CoreRatingData dm} {p q : UserRef}
    {u v : FullUserData dm} (hu : d.activeUsers.lookup p.owner = some u)
    (hv : v.serial = u.serial) (hq : d.Live q) :
    ({ d with activeUsers := d.activeUsers.insert p.owner v } :
      CoreRatingData dm).Live q := by
  obtain ⟨w, hw, hws⟩ := hq
  by_cases hpq : q.owner = p.owner
  · have huw : u = w := Option.some_inj.mp (hu.symm.trans (hpq ▸ hw))
    exact ⟨v, by rw [hpq]; exact AList.lookup_insert _,
      by rw [hv, huw]; exact hws⟩
  · exact ⟨w, (AList.lookup_insert_ne hpq).trans hw, hws⟩

/-- **The renumbering** runs through if the vector holds pointers to distinct
users' objects. -/
theorem ratingRefreshPositions_ok {d : CoreRatingData dm}
    (hlive : ∀ p ∈ d.rating, d.Live p)
    (hnodup : (d.rating.map UserRef.owner).Nodup) :
    ∃ d', d.ratingRefreshPositions = .ok d' ∧ Renumbered d d' := by
  have hkeys : (d.rating.zipIdx.map fun e => e.1.owner) =
      d.rating.map UserRef.owner := by
    calc (d.rating.zipIdx.map fun e => e.1.owner)
        = (d.rating.zipIdx.map Prod.fst).map UserRef.owner := by
          rw [List.map_map]
          rfl
      _ = d.rating.map UserRef.owner := by rw [List.zipIdx_map_fst]
  have hstep : ∀ (c : CoreRatingData dm) (e : UserRef × ℕ),
      (c.rating = d.rating ∧ c.silentUsers = d.silentUsers ∧
        c.nextSerial = d.nextSerial ∧ ∀ p, d.Live p → c.Live p) →
      d.Live e.1 →
      ∃ c', (c.modify e.1 fun u => { u with rating := e.2 }) = .ok c' ∧
        (c'.rating = d.rating ∧ c'.silentUsers = d.silentUsers ∧
          c'.nextSerial = d.nextSerial ∧ ∀ p, d.Live p → c'.Live p) ∧
        (∃ u, c.activeUsers.lookup e.1.owner = some u ∧
          u.serial = e.1.serial ∧
          c'.activeUsers.lookup e.1.owner =
            some { u with rating := (e.2 : ℤ) }) ∧
        ∀ k, k ≠ e.1.owner →
          c'.activeUsers.lookup k = c.activeUsers.lookup k := by
    rintro c e ⟨hr, hsi, hse, hl⟩ he
    obtain ⟨u, hu, hus⟩ := hl _ he
    exact ⟨_, CoreRatingData.modify_of_lookup _ hu hus,
      ⟨hr, hsi, hse, fun p hp => live_insert hu rfl (hl p hp)⟩,
      ⟨u, hu, hus, AList.lookup_insert _⟩, fun k hk => AList.lookup_insert_ne hk⟩
  obtain ⟨d', hd', ⟨hrating, hsilent, hserial, -⟩, hmem, hout⟩ :=
    KeyedFold.foldlM_view (fun e : UserRef × ℕ => e.1.owner)
      (fun (c : CoreRatingData dm) id => c.activeUsers.lookup id)
      (fun e old new => ∃ u, old = some u ∧ u.serial = e.1.serial ∧
        new = some { u with rating := (e.2 : ℤ) })
      (fun c => c.rating = d.rating ∧ c.silentUsers = d.silentUsers ∧
        c.nextSerial = d.nextSerial ∧ ∀ p, d.Live p → c.Live p)
      (fun e => d.Live e.1) hstep d.rating.zipIdx d
      (by rw [hkeys]; exact hnodup) ⟨rfl, rfl, rfl, fun _ => id⟩
      (fun e he => hlive e.1 (List.fst_mem_of_mem_zipIdx he))
  rw [hkeys] at hout
  exact ⟨d', hd', hrating, hsilent, hserial,
    fun i p hi => hmem (p, i) (List.mk_mem_zipIdx_iff_getElem?.mpr hi), hout⟩

/-! ## §5  The merge -/

theorem mergeInv_nil {d : CoreRatingData dm} {f : ℕ} {offset : ℤ}
    (hf : offset = f) :
    MergeInv d f []
      { userData := { d with rating := d.rating ++ List.replicate f .null }
        offset } := by
  refine ⟨⟨Nat.zero_le _, fun j hj => absurd hj (Nat.not_lt_zero j), ?_⟩,
    by simp, ?_, rfl, rfl, rfl⟩
  · intro e _ he _
    rw [List.length_reverse] at he ⊢
    rw [List.getElem?_append_left (by omega), List.getElem?_reverse he]
  · simp [hf, inserts, removes]

namespace RatingCalculatorImpl

/-- The core data with all patches of the batch applied, before the
renumbering. -/
def merged (s : RatingCalculatorImpl dm n) : CoreRatingData dm :=
  { s.userData with
    rating := (patched s.userData.rating.reverse
      (s.ratingPatches.map RatingPatchEntry.toPatch)).reverse
    activeUsers := s.ratingPatches.foldl settle s.userData.activeUsers }

/-- **The merge of a batch**: if no element that stays would have to move
towards the front, it applies all patches and renumbers the rating, and it
fails in the assertion of the block move otherwise. -/
theorem merge_spec {s : RatingCalculatorImpl dm n} {f : ℕ}
    (hf : s.freshRatings = f) (hsize : s.userData.rating.length + f < 2 ^ 31)
    (hfit : PatchesFit s.userData f s.ratingPatches)
    (hlive : ∀ p ∈ s.userData.rating, s.userData.Live p)
    (hnodup : (s.merged.rating.map UserRef.owner).Nodup) :
    (HasRoom s.userData.rating.length f
        (s.ratingPatches.map RatingPatchEntry.toPatch) ∧
      ∃ d', s.merge = .ok { s with userData := d' } ∧
        Renumbered s.merged d') ∨
    (¬ HasRoom s.userData.rating.length f
        (s.ratingPatches.map RatingPatchEntry.toPatch) ∧
      s.merge = .error .assertion) := by
  have hint : toInt s.userData.rating.length = s.userData.rating.length :=
    toInt_of_lt (by omega)
  have hwrap : wrapInt ((s.userData.rating.length : ℤ) + f) =
      s.userData.rating.length + f := wrapInt_of_lt (by omega) (by omega)
  have hnew : ((s.userData.rating.length : ℤ) + f).toNat =
      s.userData.rating.length + f := by omega
  have hresized : s.userData.rating.take (s.userData.rating.length + f) ++
      List.replicate (s.userData.rating.length + f - s.userData.rating.length)
        .null = s.userData.rating ++ List.replicate f .null := by
    rw [List.take_of_length_le (by omega), Nat.add_sub_cancel_left]
  have hmerge : s.merge = (do
      let st ← s.ratingPatches.foldlM (mergePatch s.userData.rating.length)
        { userData := { s.userData with
            rating := s.userData.rating ++ List.replicate f .null }
          offset := s.freshRatings }
      let userData ← st.userData.ratingRefreshPositions
      .ok { s with userData }) := by
    unfold merge
    rw [hint, hf]
    dsimp only
    rw [hwrap, if_neg (by omega), hnew, hresized]
  rcases foldlM_mergePatch (mergeInv_nil hf) hfit with
    ⟨hroom, st, hst, hinv⟩ | ⟨hroom, hst⟩
  · -- the vector in place is the patched one
    have hord := hfit.ordered
    rw [← List.length_reverse] at hord
    have hlenPatched := length_patched hord
    have htotal := hfit.total
    have hrating : st.userData.rating = s.merged.rating :=
      hinv.inPlace.eq_patched (done_le _ hord.bounded) (by
        rw [hinv.length]
        rw [List.length_reverse] at hlenPatched
        omega)
    have hdata : st.userData = s.merged := by
      rw [hinv.userData, hrating]
      rfl
    have hliveMerged : ∀ p ∈ s.merged.rating, s.merged.Live p := by
      intro p hp
      refine live_settled ?_ rfl
      rcases (mem_patched hord).mp (List.mem_reverse.mp hp) with
        ⟨e, -, he⟩ | ⟨k, hk⟩
      · exact hlive p (List.mem_reverse.mp (List.mem_of_getElem? he))
      · obtain ⟨q, hq, hqp⟩ := List.mem_map.mp hk
        unfold RatingPatchEntry.toPatch at hqp
        split at hqp
        · cases hqp
        · rename_i hct
          cases hqp
          exact hfit.live q hq hct
    obtain ⟨d', hd', hren⟩ := ratingRefreshPositions_ok hliveMerged hnodup
    refine Or.inl ⟨hroom, d', ?_, hren⟩
    rw [hmerge, hst, ok_bind, hdata, hd']
    rfl
  · refine Or.inr ⟨hroom, ?_⟩
    rw [hmerge, hst]
    rfl

end RatingCalculatorImpl

end RatingService
