import RatingService.Service.DealPatches

/-!
# Rating integrity

What one `recalculate` makes of the rating.

- §1: when the merge has room, said about users: nobody who has no deal may
  move up.
- §2: the order of the new rating, as one key per user.
- §3: the deals and the merge together: the rating becomes the sorted list of
  the users who are active then.
-/

namespace RatingService

open PatchMerge

variable {dm : DataModel} {n : ℕ}

/-! ## §1  Room -/

def oldWinnings (old : IdT → Option (RatedData dm)) (id : IdT) : MonetaryT dm :=
  ((old id).map RatedData.amountWon).getD 0

/-- No user without a deal moves up the rating: of the users with a deal, at
most as many end up with no more winnings than he has as come from behind him
or from outside the rating. `old` is the rating before the deals, `state`
where the deals find the users. -/
def NobodyMovesUp (old : IdT → Option (RatedData dm))
    (state : IdT → UserState dm) (deals : List (IdT × MonetaryT dm)) : Prop :=
  ∀ id r, old id = some r → id ∉ deals.map Prod.fst →
    (deals.countP fun e => (state e.1).isRegistered &&
      decide ((oldWinnings old e.1 + e.2).toInt ≤ r.amountWon.toInt)) ≤
    (deals.countP fun e => (state e.1).isSilent) +
      deals.countP fun e => (old e.1).any fun r' => decide (r.rank < r'.rank)

namespace RatingCalculatorImpl

section Deals

variable {s₀ s : RatingCalculatorImpl dm n}
  {done : List (IdT × MonetaryT dm)} {id : IdT} {r : RatedData dm}

theorem DealsInv.countP_insert (h : DealsInv s₀ done s)
    (hint : s₀.userData.RatingIntegrity) (hr : s₀.userData.rated id = some r)
    {e : ℕ} (he : s₀.userData.rating.reverse[e]? = some ⟨id, r.serial⟩) :
    ((s.ratingPatches.map RatingPatchEntry.toPatch).countP
        fun p => p.isInsert && decide (p.behind ≤ e)) =
      done.countP fun a => (s₀.userState a.1).isRegistered &&
        decide ((s₀.userData.winnings a.1 + a.2).toInt ≤
          r.amountWon.toInt) := by
  refine h.countP_patches (fun _ _ _ => rfl) fun a => ?_
  have hplace : s₀.userData.elementsAfter (s₀.userData.winnings a.1 + a.2) ≤ e ↔
      (s₀.userData.winnings a.1 + a.2).toInt ≤ r.amountWon.toInt := by
    have hlt := hint.lt_elementsAfter
      (w := s₀.userData.winnings a.1 + a.2) he
    have hwin : s₀.userData.winnings id = r.amountWon := by
      rw [CoreRatingData.winnings, hr]
      rfl
    rw [hwin] at hlt
    omega
  unfold CoreRatingData.dealShapes userState
  cases s₀.userData.userState a.1 with
  | unregistered => rfl
  | silent u =>
      simp [Patch.isInsert, Patch.behind, UserState.isRegistered, hplace]
  | active u =>
      simp [Patch.isInsert, Patch.behind, UserState.isRegistered, hplace]

theorem DealsInv.countP_remove (h : DealsInv s₀ done s)
    (hint : s₀.userData.RatingIntegrity) {e : ℕ}
    (he : (e : ℤ) = s₀.userData.rating.length - 1 - r.rank) :
    ((s.ratingPatches.map RatingPatchEntry.toPatch).countP
        fun p => p.isRemove && decide (p.behind < e)) =
      done.countP fun a =>
        (s₀.userData.rated a.1).any fun r' => decide (r.rank < r'.rank) := by
  refine h.countP_patches (fun _ _ _ => rfl) fun a => ?_
  unfold CoreRatingData.dealShapes
  cases hst : s₀.userData.userState a.1 with
  | unregistered =>
      rw [CoreRatingData.rated_eq_none (by rw [hst]; rfl)]
      rfl
  | silent u =>
      rw [CoreRatingData.rated_eq_none (by rw [hst]; rfl)]
      rfl
  | active u =>
      obtain ⟨hnonneg, hlast, -⟩ := rank_of_active hint hst
      have hplace : (s₀.userData.rating.length - u.rating).toNat - 1 < e ↔
          r.rank < u.rating := by omega
      rw [CoreRatingData.rated_of_active hst]
      simp [List.countP_cons, Patch.isRemove, Patch.isInsert, Patch.behind,
        FullUserData.rated, hplace]

/-- **Room, said about users**: the merge has room exactly when nobody without
a deal moves up. -/
theorem DealsInv.hasRoom_iff (h : DealsInv s₀ done s)
    (hint : s₀.userData.RatingIntegrity) :
    HasRoom s₀.userData.rating.length
        (done.countP fun e => (s₀.userState e.1).isSilent)
        (s.ratingPatches.map RatingPatchEntry.toPatch) ↔
      NobodyMovesUp s₀.userData.rated s₀.userState done := by
  constructor
  · intro hroom id r hr hid
    obtain ⟨hnonneg, hstands⟩ := hint.stands hr
    obtain ⟨hlt, -⟩ := List.getElem?_eq_some_iff.mp hstands
    have hplace : s₀.userData.rating.reverse[s₀.userData.rating.length - 1 -
        r.rank.toNat]? = some ⟨id, r.serial⟩ := by
      rw [List.getElem?_reverse (by omega), ← hstands]
      congr 1
      omega
    have hcount := hroom _ (by omega)
      (fun hrem => hid ((h.removed_iff hint hplace).mp hrem))
    rw [h.countP_insert hint hr hplace,
      h.countP_remove (r := r) hint (by omega)] at hcount
    exact hcount
  · intro hup e he hfree
    have hlt : s₀.userData.rating.length - 1 - e < s₀.userData.rating.length := by
      omega
    have hplace := List.getElem?_eq_getElem hlt
    obtain ⟨r, hr, hserial, hrank⟩ := hint.ranked _ _ hplace
    rw [← List.getElem?_reverse he] at hplace
    refine le_trans (le_of_eq ?_) ((hup _ r hr fun hmem =>
      hfree ((h.removed_iff hint hplace).mpr hmem)).trans (le_of_eq ?_))
    · exact h.countP_insert hint hr (by rw [hplace, hserial])
    · rw [h.countP_remove (r := r) (e := e) hint (by omega)]

end Deals

end RatingCalculatorImpl

/-! ## §2  The order of the new rating -/

def newWinnings (old : IdT → Option (RatedData dm)) (deals : DealsMap dm)
    (id : IdT) : MonetaryT dm :=
  oldWinnings old id + (deals[id]?).getD 0

/-- What decides a user's place, smaller is further up: more winnings first,
then the users without a deal in their old order, then the users with one by
descending id. -/
def rankKey (old : IdT → Option (RatedData dm)) (deals : DealsMap dm)
    (id : IdT) : ℤ ×ₗ ℤ ×ₗ ℤ :=
  toLex (-(newWinnings old deals id).toInt,
    if (deals[id]?).isSome then toLex (1, -id.toInt)
    else toLex (0, ((old id).map RatedData.rank).getD 0))

section Order

variable {d : CoreRatingData dm} {deals : DealsMap dm} {id id' : IdT}
  {a : MonetaryT dm} {r : RatedData dm}

theorem newWinnings_of_deal (h : deals[id]? = some a) :
    newWinnings d.rated deals id = d.winnings id + a := by
  rw [newWinnings, h]
  rfl

theorem newWinnings_of_none (h : deals[id]? = none) :
    newWinnings d.rated deals id = d.winnings id := by
  rw [newWinnings, h]
  exact BitVec.add_zero _

theorem rankKey_lt_of_none {r' : RatedData dm} (h : deals[id]? = none)
    (h' : deals[id']? = none) (hr : d.rated id = some r)
    (hr' : d.rated id' = some r') :
    rankKey d.rated deals id < rankKey d.rated deals id' ↔
      r'.amountWon.toInt < r.amountWon.toInt ∨
        r.amountWon = r'.amountWon ∧ r.rank < r'.rank := by
  have hw := newWinnings_of_none (d := d) h
  have hw' := newWinnings_of_none (d := d) h'
  rw [CoreRatingData.winnings, hr] at hw
  rw [CoreRatingData.winnings, hr'] at hw'
  simp only [rankKey, hw, hw', h, h', hr, hr', Option.isSome_none,
    Bool.false_eq_true, if_false, Prod.Lex.toLex_lt_toLex, Option.map_some,
    Option.getD_some, neg_lt_neg_iff, neg_inj, BitVec.toInt_inj, lt_irrefl,
    false_or, true_and]

theorem ne_of_lt_of_key {old : IdT → Option (RatedData dm)}
    (h : rankKey old deals id < rankKey old deals id') : id ≠ id' := by
  rintro rfl
  exact lt_irrefl _ h

theorem rankKey_le_winnings {old : IdT → Option (RatedData dm)}
    (h : rankKey old deals id < rankKey old deals id') :
    (newWinnings old deals id').toInt ≤ (newWinnings old deals id).toInt := by
  rw [rankKey, rankKey, Prod.Lex.toLex_lt_toLex] at h
  omega

/-- A user with a deal stands behind the ones without whose winnings he does
not exceed. -/
theorem rankKey_lt_deal (h : deals[id]? = none) (h' : deals[id']? = some a)
    (hle : (d.winnings id' + a).toInt ≤ (d.winnings id).toInt) :
    rankKey d.rated deals id < rankKey d.rated deals id' := by
  have hw := newWinnings_of_none (d := d) h
  have hw' := newWinnings_of_deal (d := d) h'
  simp only [rankKey, hw, hw', h, h', Option.isSome_none, Option.isSome_some,
    Bool.false_eq_true, if_false, if_true, Prod.Lex.toLex_lt_toLex]
  omega

theorem rankKey_deal_lt (h : deals[id]? = none) (h' : deals[id']? = some a)
    (hlt : (d.winnings id).toInt < (d.winnings id' + a).toInt) :
    rankKey d.rated deals id' < rankKey d.rated deals id := by
  have hw := newWinnings_of_none (d := d) h
  have hw' := newWinnings_of_deal (d := d) h'
  simp only [rankKey, hw, hw', Prod.Lex.toLex_lt_toLex]
  omega

/-- Between users with a deal the winnings decide, then the ids. -/
theorem rankKey_deals_lt {a' : MonetaryT dm} (h : deals[id]? = some a)
    (h' : deals[id']? = some a') :
    rankKey d.rated deals id < rankKey d.rated deals id' ↔
      (d.winnings id' + a').toInt < (d.winnings id + a).toInt ∨
        d.winnings id + a = d.winnings id' + a' ∧ id'.toInt < id.toInt := by
  have hw := newWinnings_of_deal (d := d) h
  have hw' := newWinnings_of_deal (d := d) h'
  simp only [rankKey, hw, hw', h, h', Option.isSome_some, if_true,
    Prod.Lex.toLex_lt_toLex, neg_lt_neg_iff, neg_inj, BitVec.toInt_inj,
    lt_irrefl, false_or, true_and]

theorem CoreRatingData.elementsAfter_mono {w w' : MonetaryT dm}
    (h : w.toInt ≤ w'.toInt) : d.elementsAfter w ≤ d.elementsAfter w' := by
  refine Nat.sub_le_sub_left (List.findIdx_le_findIdx fun p _ hp => ?_) _
  rw [decide_eq_true_eq] at hp ⊢
  omega

end Order

namespace RatingCalculatorImpl

section Deals

variable {s₀ s : RatingCalculatorImpl dm n} {deals : DealsMap dm}

theorem getElem?_of_mem_toList {e : IdT × MonetaryT dm}
    (he : e ∈ deals.toList) : deals[e.1]? = some e.2 :=
  Std.TreeMap.mem_toList_iff_getElem?_eq_some.mp he

theorem getElem?_of_not_mem {id : IdT} (h : id ∉ deals.toList.map Prod.fst) :
    deals[id]? = none := by
  rcases getElem?_toList deals id with ⟨hnone, -⟩ | ⟨v, -, hv⟩
  · exact hnone
  · exact absurd (List.mem_map_of_mem hv) h

/-- The insertions come in the order of the new rating, read from its end. -/
theorem DealsInv.inserts_sorted (h : DealsInv s₀ deals.toList s) :
    (s.ratingPatches.map RatingPatchEntry.toPatch).Pairwise fun p q =>
      ∀ k a l b, p = .insert k a → q = .insert l b →
        rankKey s₀.userData.rated deals b.owner <
          rankKey s₀.userData.rated deals a.owner := by
  rw [List.pairwise_map]
  refine h.sorted.imp_of_mem fun {p q} hp hq hlt k a l b hpa hqb => ?_
  unfold RatingPatchEntry.toPatch at hpa hqb
  rcases h.of_mem hp with ⟨hct, -⟩ | ⟨hct, e, he, -, howner, hamount, hea⟩
  · rw [hct] at hpa
    cases hpa
  rcases h.of_mem hq with ⟨hct', -⟩ | ⟨hct', e', he', -, howner', hamount', hea'⟩
  · rw [hct'] at hqb
    cases hqb
  rw [hct] at hpa
  rw [hct'] at hqb
  cases hpa
  cases hqb
  rw [RatingPatchEntry.key_lt_key, hct, hct', hamount, hamount', hea, hea',
    howner, howner'] at hlt
  rw [howner, howner', rankKey_deals_lt (getElem?_of_mem_toList he')
    (getElem?_of_mem_toList he)]
  rcases hlt with hplace | ⟨-, hvalue | ⟨-, hmore | ⟨hsame, hid⟩⟩⟩
  · -- a smaller place from the end means fewer winnings
    left
    by_contra hnot
    have hmono := CoreRatingData.elementsAfter_mono (d := s₀.userData)
      (not_lt.mp hnot)
    omega
  · exact absurd hvalue (lt_irrefl _)
  · exact Or.inl hmore
  · exact Or.inr ⟨hsame.symm, hid⟩

/-- **The patches fit the order of the new rating.** -/
theorem DealsInv.fits (h : DealsInv s₀ deals.toList s)
    (hint : s₀.userData.RatingIntegrity) :
    Fits (fun x y => rankKey s₀.userData.rated deals y.owner <
        rankKey s₀.userData.rated deals x.owner) s₀.userData.rating.reverse
      (s.ratingPatches.map RatingPatchEntry.toPatch) where
  survivors := by
    intro i j x y hij hi hj hx hy
    have hxnone := getElem?_of_not_mem
      (mt (h.removed_iff hint hx).mpr hi)
    have hynone := getElem?_of_not_mem
      (mt (h.removed_iff hint hy).mpr hj)
    obtain ⟨hilt, -⟩ := List.getElem?_eq_some_iff.mp hx
    obtain ⟨hjlt, -⟩ := List.getElem?_eq_some_iff.mp hy
    rw [List.length_reverse] at hilt hjlt
    rw [List.getElem?_reverse hilt] at hx
    rw [List.getElem?_reverse hjlt] at hy
    obtain ⟨r, hr, -, hrank⟩ := hint.ranked _ _ hx
    obtain ⟨r', hr', -, hrank'⟩ := hint.ranked _ _ hy
    obtain ⟨hxlt, hxeq⟩ := List.getElem?_eq_some_iff.mp hx
    obtain ⟨hylt, hyeq⟩ := List.getElem?_eq_some_iff.mp hy
    have hsorted := List.pairwise_iff_getElem.mp hint.sorted _ _ hylt hxlt
      (by omega)
    rw [hxeq, hyeq, CoreRatingData.winnings, CoreRatingData.winnings, hr, hr']
      at hsorted
    rw [rankKey_lt_of_none hynone hxnone hr' hr]
    rcases lt_or_eq_of_le hsorted with hlt | heq
    · exact Or.inl hlt
    · exact Or.inr ⟨(BitVec.toInt_inj.mp heq).symm, by omega⟩
  below := by
    intro k a i x hins hik hi hx
    obtain ⟨-, e, he, -, howner, rfl⟩ := h.inserted_iff.mp hins
    have hfewer := (hint.lt_elementsAfter hx).mp hik
    rw [howner]
    exact rankKey_deal_lt
      (getElem?_of_not_mem (mt (h.removed_iff hint hx).mpr hi))
      (getElem?_of_mem_toList he) hfewer
  above := by
    intro k a i x hins hki hi hx
    obtain ⟨-, e, he, -, howner, rfl⟩ := h.inserted_iff.mp hins
    have hmore := mt (hint.lt_elementsAfter hx).mpr (not_lt.mpr hki)
    rw [howner]
    exact rankKey_lt_deal
      (getElem?_of_not_mem (mt (h.removed_iff hint hx).mpr hi))
      (getElem?_of_mem_toList he) (not_lt.mp hmore)
  inserts := h.inserts_sorted

/-! ## §3  The deals and the merge -/

/-- The vector with all patches applied, in the order of the new rating. -/
theorem DealsInv.merged_order (h : DealsInv s₀ deals.toList s)
    (hint : s₀.userData.RatingIntegrity) :
    (s.merged.rating.map UserRef.owner).Pairwise fun id id' =>
      rankKey s₀.userData.rated deals id <
        rankKey s₀.userData.rated deals id' := by
  have hord := h.ordered hint
  rw [← List.length_reverse] at hord
  have hsorted := pairwise_patched hord (h.fits hint)
  rw [List.pairwise_map, merged, List.pairwise_reverse, h.rating]
  exact hsorted

theorem DealsInv.mem_merged (h : DealsInv s₀ deals.toList s)
    (hint : s₀.userData.RatingIntegrity) {p : UserRef} :
    p ∈ s.merged.rating ↔ s.userData.Live p := by
  have hord := h.ordered hint
  rw [← List.length_reverse, ← h.rating] at hord
  rw [merged, List.mem_reverse, mem_patched hord]
  constructor
  · rintro (⟨e, -, he⟩ | ⟨k, hk⟩)
    · have hmem := List.mem_reverse.mp (List.mem_of_getElem? he)
      rw [h.rating, hint.listed, CoreRatingData.live_iff_rated] at hmem
      obtain ⟨r, hr, hs⟩ := hmem
      exact CoreRatingData.live_iff_rated.mpr ⟨r, h.rated _ _ hr, hs⟩
    · exact (h.inserted_iff.mp hk).1
  · intro hlive
    by_cases hmem : p.owner ∈ deals.toList.map Prod.fst
    · -- a deal that counts put him in
      obtain ⟨e, he, howner⟩ := List.mem_map.mp hmem
      refine Or.inr ⟨_, h.inserted_iff.mpr ⟨hlive, e, he, ?_, howner.symm, rfl⟩⟩
      obtain ⟨u, hu, -⟩ := hlive
      rw [← (h.dealt e he).isActive, howner, userState,
        CoreRatingData.userState_active hu]
      rfl
    · -- he stands where he stood
      obtain ⟨u, hu, hs⟩ := hlive
      have hst := CoreRatingData.userState_active hu
      have hbefore := (h.others p.owner hmem).symm.trans hst
      have hin : p ∈ s₀.userData.rating := (hint.listed p).mpr
        ⟨u, CoreRatingData.lookup_of_userState_active hbefore, hs⟩
      obtain ⟨e, he⟩ := List.mem_iff_getElem?.mp (List.mem_reverse.mpr hin)
      refine Or.inl ⟨e, fun hrem => hmem ((h.removed_iff hint he).mp hrem), ?_⟩
      rw [h.rating]
      exact he

/-- What deals and merge make of the core data, from the rating `old` and the
users' states `state` before the deals. -/
structure Reranked (old : IdT → Option (RatedData dm))
    (state : IdT → UserState dm) (deals : DealsMap dm)
    (d' : CoreRatingData dm) : Prop where
  integrity : d'.RatingIntegrity
  disjoint : d'.Disjoint
  order : (d'.rating.map UserRef.owner).Pairwise fun id id' =>
    rankKey old deals id < rankKey old deals id'
  winnings : ∀ id, (d'.userState id).isActive →
    d'.winnings id = newWinnings old deals id
  active : ∀ id, (d'.userState id).isActive =
    ((state id).isActive || ((state id).isSilent && (deals[id]?).isSome))
  registered : ∀ id, (d'.userState id).isRegistered = (state id).isRegistered

theorem DealsInv.insertion_amount (h : DealsInv s₀ deals.toList s)
    {q : RatingPatchEntry dm} (hq : q ∈ s.ratingPatches)
    (hnew : q.changeType = .newPosition) :
    q.amountWon = newWinnings s₀.userData.rated deals q.userData.owner := by
  rcases h.of_mem hq with ⟨hold, -⟩ | ⟨-, e, he, -, howner, hamount, -⟩
  · rw [hnew] at hold
    cases hold
  · rw [howner, hamount, newWinnings_of_deal (getElem?_of_mem_toList he)]

theorem DealsInv.settled (h : DealsInv s₀ deals.toList s)
    (hint : s₀.userData.RatingIntegrity) {d' : CoreRatingData dm}
    (hren : Renumbered s.merged d') {id : IdT} {u : FullUserData dm}
    (hu : s.userData.activeUsers.lookup id = some u) :
    ∃ i : ℕ, d'.rating[i]? = some ⟨id, u.serial⟩ ∧
      d'.activeUsers.lookup id = some { u with
        amountWon := newWinnings s₀.userData.rated deals id
        rating := i } := by
  have hlive : s.userData.Live ⟨id, u.serial⟩ := ⟨u, hu, rfl⟩
  obtain ⟨i, hi⟩ := List.mem_iff_getElem?.mp ((h.mem_merged hint).mpr hlive)
  obtain ⟨v, hv, -, hnumbered⟩ := hren.listed i _ hi
  obtain ⟨w, hw⟩ := foldl_settle_lookup s.ratingPatches hu
  obtain rfl := Option.some_inj.mp (hw.symm.trans hv)
  have hamount : w = newWinnings s₀.userData.rated deals id := by
    rcases foldl_settle_amount hu (fun q hq => h.insertion_amount hq) hw with
      hN | ⟨hsame, hnone⟩
    · exact hN
    · -- no insertion, so no deal
      have hmem : id ∉ deals.toList.map Prod.fst := by
        intro hmem
        obtain ⟨e, he, rfl⟩ := List.mem_map.mp hmem
        have hreg := (h.dealt e he).isActive
        rw [userState, CoreRatingData.userState_active hu] at hreg
        obtain ⟨q, hq, hqp⟩ := List.mem_map.mp
          (h.inserted_iff.mpr ⟨hlive, e, he, hreg.symm, rfl, rfl⟩)
        unfold RatingPatchEntry.toPatch at hqp
        split at hqp
        · cases hqp
        · rename_i hct
          injection hqp with _ hqo
          exact hnone q hq hct (by rw [hqo])
      have hbefore := (h.others id hmem).symm.trans
        (CoreRatingData.userState_active hu)
      rw [newWinnings_of_none (getElem?_of_not_mem hmem),
        CoreRatingData.winnings_of_active
          (CoreRatingData.lookup_of_userState_active hbefore)]
      exact hsame
  refine ⟨i, by rw [hren.rating]; exact hi, ?_⟩
  rw [← hamount]
  exact hnumbered

theorem DealsInv.settled_none (h : DealsInv s₀ deals.toList s)
    (hint : s₀.userData.RatingIntegrity) {d' : CoreRatingData dm}
    (hren : Renumbered s.merged d') {id : IdT}
    (hu : s.userData.activeUsers.lookup id = none) :
    d'.activeUsers.lookup id = none := by
  rw [hren.unlisted id]
  · exact foldl_settle_none _ hu
  · intro hmem
    obtain ⟨p, hp, rfl⟩ := List.mem_map.mp hmem
    obtain ⟨v, hv, -⟩ := (h.mem_merged hint).mp hp
    exact Option.some_ne_none v (hv.symm.trans hu)

theorem DealsInv.merged_kind (h : DealsInv s₀ deals.toList s)
    (hint : s₀.userData.RatingIntegrity) {d' : CoreRatingData dm}
    (hren : Renumbered s.merged d') (id : IdT) :
    (d'.userState id).isActive = (s.userState id).isActive ∧
      (d'.userState id).isRegistered = (s.userState id).isRegistered := by
  cases hu : s.userData.activeUsers.lookup id with
  | some u =>
      obtain ⟨i, -, hv⟩ := h.settled hint hren hu
      rw [CoreRatingData.userState_active hv, userState,
        CoreRatingData.userState_active hu]
      exact ⟨rfl, rfl⟩
  | none =>
      have hv := h.settled_none hint hren hu
      rw [show d'.userState id = s.userState id from
        CoreRatingData.userState_congr (hv.trans hu.symm)
          (by rw [hren.silentUsers]; rfl)]
      exact ⟨rfl, rfl⟩

theorem DealsInv.merged_integrity (h : DealsInv s₀ deals.toList s)
    (hint : s₀.userData.RatingIntegrity) {d' : CoreRatingData dm}
    (hren : Renumbered s.merged d') : d'.RatingIntegrity := by
  have horder := h.merged_order hint
  have hwinnings : ∀ p ∈ s.merged.rating,
      d'.winnings p.owner = newWinnings s₀.userData.rated deals p.owner := by
    intro p hp
    obtain ⟨u, hu, -⟩ := (h.mem_merged hint).mp hp
    obtain ⟨i, -, hv⟩ := h.settled hint hren hu
    exact CoreRatingData.winnings_of_active hv
  constructor
  · intro p
    rw [hren.rating, h.mem_merged hint]
    constructor
    · rintro ⟨u, hu, hs⟩
      obtain ⟨i, -, hv⟩ := h.settled hint hren hu
      exact ⟨_, hv, hs⟩
    · rintro ⟨v, hv, hs⟩
      cases hu : s.userData.activeUsers.lookup p.owner with
      | none =>
          exact absurd (hv.symm.trans (h.settled_none hint hren hu))
            (Option.some_ne_none v)
      | some u =>
          obtain ⟨i, -, hv'⟩ := h.settled hint hren hu
          obtain rfl := Option.some_inj.mp (hv'.symm.trans hv)
          exact ⟨u, hu, hs⟩
  · rw [hren.rating]
    exact List.Nodup.of_map _ (horder.imp fun hlt => ne_of_lt_of_key hlt)
  · intro i p hp
    rw [hren.rating] at hp
    obtain ⟨u, -, hs, hv⟩ := hren.listed i p hp
    exact ⟨_, by rw [CoreRatingData.rated, hv]; rfl, hs, rfl⟩
  · rw [hren.rating]
    rw [List.pairwise_map] at horder
    refine horder.imp_of_mem fun {p q} hp hq hlt => ?_
    rw [hwinnings p hp, hwinnings q hq]
    have := rankKey_le_winnings hlt
    exact this

theorem DealsInv.reranked (h : DealsInv s₀ deals.toList s)
    (hint : s₀.userData.RatingIntegrity) {d' : CoreRatingData dm}
    (hren : Renumbered s.merged d') :
    Reranked s₀.userData.rated s₀.userState deals d' where
  integrity := h.merged_integrity hint hren
  disjoint := by
    intro id v hv
    rw [hren.silentUsers]
    cases hu : s.userData.activeUsers.lookup id with
    | some u => exact h.disjoint id u hu
    | none =>
        exact absurd (hv.symm.trans (h.settled_none hint hren hu))
          (Option.some_ne_none v)
  order := by
    rw [hren.rating]
    exact h.merged_order hint
  winnings := by
    intro id hid
    rw [(h.merged_kind hint hren id).1, userState] at hid
    cases hu : s.userData.activeUsers.lookup id with
    | some u =>
        obtain ⟨i, -, hv⟩ := h.settled hint hren hu
        exact CoreRatingData.winnings_of_active hv
    | none =>
        unfold CoreRatingData.userState at hid
        rw [hu] at hid
        split at hid
        · rename_i v hv
          cases hv
        · split at hid <;> cases hid
  active := by
    intro id
    rw [(h.merged_kind hint hren id).1]
    rcases getElem?_toList deals id with ⟨hnone, hmem⟩ | ⟨a, ha, hmem⟩
    · rw [h.others id hmem, hnone, Option.isSome_none, Bool.and_false,
        Bool.or_false]
    · rw [(h.dealt _ hmem).isActive, ha, UserState.isRegistered_eq,
        Option.isSome_some, Bool.and_true]
  registered := by
    intro id
    rw [(h.merged_kind hint hren id).2]
    rcases getElem?_toList deals id with ⟨-, hmem⟩ | ⟨a, -, hmem⟩
    · rw [h.others id hmem]
    · exact (h.dealt _ hmem).isRegistered

/-- **Deals and merge**: from a rating with integrity, they fail in the
assertion of the block move if somebody without a deal would move up, and
rerank the users otherwise. -/
theorem deals_merge_spec (hint : s₀.userData.RatingIntegrity)
    (hdisj : s₀.userData.Disjoint) (hpatches : s₀.ratingPatches = [])
    (hfresh : s₀.freshRatings = 0)
    (hsize : s₀.userData.rating.length +
      (s₀.incomingBuffer.dealsWon.toList.countP fun e =>
        (s₀.userState e.1).isSilent) < 2 ^ 31) :
    (NobodyMovesUp s₀.userData.rated s₀.userState
        s₀.incomingBuffer.dealsWon.toList ∧
      ∃ s', s₀.processDeals >>= merge = .ok s' ∧
        Reranked s₀.userData.rated s₀.userState s₀.incomingBuffer.dealsWon
          s'.userData) ∨
    (¬ NobodyMovesUp s₀.userData.rated s₀.userState
        s₀.incomingBuffer.dealsWon.toList ∧
      s₀.processDeals >>= merge = .error .assertion) := by
  obtain ⟨s, hs, h⟩ := processDeals_spec hint (by omega) hdisj hpatches hfresh
  have hnodup : (s.merged.rating.map UserRef.owner).Nodup :=
    (h.merged_order hint).imp fun hlt => ne_of_lt_of_key hlt
  have hlive : ∀ p ∈ s.userData.rating, s.userData.Live p := by
    intro p hp
    rw [h.rating, hint.listed, CoreRatingData.live_iff_rated] at hp
    obtain ⟨r, hr, hserial⟩ := hp
    exact CoreRatingData.live_iff_rated.mpr ⟨r, h.rated _ _ hr, hserial⟩
  have hmerge := merge_spec h.fresh (by rw [h.rating]; exact hsize)
    (h.patchesFit hint) hlive hnodup
  rw [h.rating, h.hasRoom_iff hint] at hmerge
  rw [hs, ok_bind]
  refine hmerge.imp_left (And.imp_right ?_)
  rintro ⟨d', hd', hren⟩
  exact ⟨_, hd', h.reranked hint hren⟩

end Deals

end RatingCalculatorImpl

end RatingService
