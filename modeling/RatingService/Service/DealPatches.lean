import RatingService.Service.RatingMerge
import Mathlib.Data.Prod.Lex
import Mathlib.Data.Int.Order.Basic

/-!
# The patches of a batch's deals

What `processDeals` hands to the merge: for a user who had rating a removal
and an insertion, for a user who had none an insertion, all of them addressed
in the rating as it is before the merge.

- §1: the integrity of the rating, and the place `ratingElementsAfter` finds.
- §2: the order of the patches.
- §3: one deal, and the loop.
- §4: what the merge asks of its patches.
-/

namespace RatingService

open PatchMerge

variable {dm : DataModel} {n : ℕ}

/-! ## §1  The rating before the deals -/

namespace CoreRatingData

def winnings (d : CoreRatingData dm) (id : IdT) : MonetaryT dm :=
  ((d.rated id).map RatedData.amountWon).getD 0

/-- **Integrity of the rating**: it lists every active user exactly once and
nobody else, every listed record knows its position, and winnings do not
increase along it. -/
structure RatingIntegrity (d : CoreRatingData dm) : Prop where
  listed : ∀ p, p ∈ d.rating ↔ d.Live p
  nodup : d.rating.Nodup
  ranked : ∀ (i : ℕ) p, d.rating[i]? = some p →
    ∃ r, d.rated p.owner = some r ∧ r.serial = p.serial ∧ r.rank = i
  sorted : d.rating.Pairwise fun p q =>
    (d.winnings q.owner).toInt ≤ (d.winnings p.owner).toInt

theorem Live.eq_of_owner {d : CoreRatingData dm} {p q : UserRef}
    (hp : d.Live p) (hq : d.Live q) (h : p.owner = q.owner) : p = q := by
  obtain ⟨u, hu, hus⟩ := hp
  obtain ⟨v, hv, hvs⟩ := hq
  have huv : u = v := Option.some_inj.mp (hu.symm.trans (h ▸ hv))
  cases p
  cases q
  simp_all

theorem RatingIntegrity.nodup_owners {d : CoreRatingData dm}
    (h : d.RatingIntegrity) : (d.rating.map UserRef.owner).Nodup :=
  List.Nodup.map_on (fun _ hp _ hq heq =>
    Live.eq_of_owner ((h.listed _).mp hp) ((h.listed _).mp hq) heq) h.nodup

/-- The rating lists the active users. -/
theorem RatingIntegrity.mem_owners {d : CoreRatingData dm}
    (h : d.RatingIntegrity) {id : IdT} :
    id ∈ d.rating.map UserRef.owner ↔ (d.userState id).isActive := by
  rw [isActive_iff, ← AList.lookup_isSome, List.mem_map]
  constructor
  · rintro ⟨p, hp, rfl⟩
    obtain ⟨u, hu, -⟩ := (h.listed p).mp hp
    rw [hu]
    rfl
  · intro hid
    obtain ⟨u, hu⟩ := Option.isSome_iff_exists.mp hid
    exact ⟨⟨id, u.serial⟩, (h.listed _).mpr ⟨u, hu, rfl⟩, rfl⟩

/-- A rated user stands where his record says. -/
theorem RatingIntegrity.stands {d : CoreRatingData dm} (h : d.RatingIntegrity)
    {id : IdT} {r : RatedData dm} (hr : d.rated id = some r) :
    0 ≤ r.rank ∧ d.rating[r.rank.toNat]? = some ⟨id, r.serial⟩ := by
  have hmem : (⟨id, r.serial⟩ : UserRef) ∈ d.rating :=
    (h.listed _).mpr (live_iff_rated.mpr ⟨r, hr, rfl⟩)
  obtain ⟨i, hi⟩ := List.mem_iff_getElem?.mp hmem
  obtain ⟨r', hr', -, hrank⟩ := h.ranked i _ hi
  obtain rfl : r = r' := Option.some_inj.mp (hr.symm.trans hr')
  refine ⟨by omega, ?_⟩
  rw [hrank, Int.toNat_natCast]
  exact hi

/-- How many elements stand behind the place that `winnings` belong in. -/
def elementsAfter (d : CoreRatingData dm) (winnings : MonetaryT dm) : ℕ :=
  d.rating.length - d.rating.findIdx fun p =>
    (d.winnings p.owner).toInt < winnings.toInt

theorem elementsAfter_le (d : CoreRatingData dm) (winnings : MonetaryT dm) :
    d.elementsAfter winnings ≤ d.rating.length :=
  Nat.sub_le _ _

theorem RatingIntegrity.lt_elementsAfter {d : CoreRatingData dm}
    (h : d.RatingIntegrity) {w : MonetaryT dm} {e : ℕ} {p : UserRef}
    (he : d.rating.reverse[e]? = some p) :
    e < d.elementsAfter w ↔ (d.winnings p.owner).toInt < w.toInt := by
  obtain ⟨hlt, -⟩ := List.getElem?_eq_some_iff.mp he
  rw [List.length_reverse] at hlt
  rw [List.getElem?_reverse hlt] at he
  obtain ⟨hj, rfl⟩ := List.getElem?_eq_some_iff.mp he
  unfold elementsAfter
  constructor
  · intro hlast
    have hpos : (d.rating.findIdx fun p =>
        (d.winnings p.owner).toInt < w.toInt) < d.rating.length := by omega
    have hfound := List.findIdx_getElem (w := hpos)
    rw [decide_eq_true_eq] at hfound
    refine Int.lt_of_le_of_lt ?_ hfound
    -- the elements behind the place have no more than its first one
    rcases Nat.lt_or_ge (d.rating.findIdx fun p =>
        (d.winnings p.owner).toInt < w.toInt) (d.rating.length - 1 - e)
      with hbehind | hsame
    · exact List.pairwise_iff_getElem.mp h.sorted _ _ hpos hj hbehind
    · refine Int.le_of_eq ?_
      congr! 4
      omega
  · intro hfewer
    by_contra hlast
    have hfront : d.rating.length - 1 - e < d.rating.findIdx fun p =>
        (d.winnings p.owner).toInt < w.toInt := by omega
    have hnot := List.not_of_lt_findIdx hfront
    rw [decide_eq_false_iff_not] at hnot
    exact hnot hfewer

theorem mapM_load {d : CoreRatingData dm} :
    ∀ l : List UserRef, (∀ p ∈ l, d.Live p) →
      ∃ users, l.mapM d.load = .ok users ∧
        users.map (·.amountWon) = l.map (d.winnings ·.owner)
  | [], _ => ⟨[], rfl, rfl⟩
  | p :: l, h => by
      obtain ⟨users, husers, hmap⟩ :=
        mapM_load l fun q hq => h q (List.mem_cons_of_mem _ hq)
      obtain ⟨u, hu, hs⟩ := h p List.mem_cons_self
      refine ⟨u :: users, ?_, ?_⟩
      · rw [List.mapM_cons, load_of_lookup hu hs, husers]
        rfl
      · rw [List.map_cons, List.map_cons, hmap, winnings, rated, hu]
        rfl

/-- `ratingElementsAfter` works on the winnings as they were before the
deals. -/
theorem RatingIntegrity.ratingElementsAfter {d d' : CoreRatingData dm}
    (h : d.RatingIntegrity) (hsize : d.rating.length < 2 ^ 31)
    (hrating : d'.rating = d.rating)
    (hrated : ∀ id r, d.rated id = some r → d'.rated id = some r)
    (w : MonetaryT dm) :
    d'.ratingElementsAfter w = .ok (d.elementsAfter w : ℤ) := by
  have hlive : ∀ p ∈ d.rating, d'.Live p ∧
      d'.winnings p.owner = d.winnings p.owner := by
    intro p hp
    obtain ⟨r, hr, hs⟩ := live_iff_rated.mp ((h.listed p).mp hp)
    refine ⟨live_iff_rated.mpr ⟨r, hrated _ _ hr, hs⟩, ?_⟩
    rw [winnings, winnings, hr, hrated _ _ hr]
  obtain ⟨users, husers, hmap⟩ := mapM_load d.rating fun p hp => (hlive p hp).1
  have hwinnings : users.map (·.amountWon) = d.rating.map (d.winnings ·.owner) := by
    rw [hmap]
    exact List.map_congr_left fun p hp => (hlive p hp).2
  have hidx : (users.findIdx fun u => u.amountWon.toInt < w.toInt) =
      d.rating.findIdx fun p => (d.winnings p.owner).toInt < w.toInt := by
    calc (users.findIdx fun u => u.amountWon.toInt < w.toInt)
        = (users.map (·.amountWon)).findIdx fun a => a.toInt < w.toInt := by
          rw [List.findIdx_map]
          rfl
      _ = d.rating.findIdx fun p => (d.winnings p.owner).toInt < w.toInt := by
          rw [hwinnings, List.findIdx_map]
          rfl
  rw [CoreRatingData.ratingElementsAfter, hrating, husers, ok_bind, hidx]
  exact congrArg Except.ok (toInt_of_lt (by omega))

end CoreRatingData

/-! ## §2  The order of the patches -/

namespace RatingPatchEntry

/-- The order of the patches in the multiset: the code's comparison, and
among entries that compare equal the users' ids, since the deals come with
ascending ids. -/
def key (p : RatingPatchEntry dm) : ℤ ×ₗ ℤ ×ₗ ℤ ×ₗ ℤ :=
  toLex (p.elementsAfter, toLex (p.changeType.value,
    toLex (p.amountWon.toInt, p.userData.owner.toInt)))

theorem key_lt_key {p q : RatingPatchEntry dm} :
    p.key < q.key ↔ p.elementsAfter < q.elementsAfter ∨
      p.elementsAfter = q.elementsAfter ∧
        (p.changeType.value < q.changeType.value ∨
          p.changeType = q.changeType ∧
            (p.amountWon.toInt < q.amountWon.toInt ∨
              p.amountWon = q.amountWon ∧
                p.userData.owner.toInt < q.userData.owner.toInt)) := by
  have hvalue : p.changeType.value = q.changeType.value ↔
      p.changeType = q.changeType := by
    cases p.changeType <;> cases q.changeType <;>
      simp [RatingChangeType.value]
  simp only [key, Prod.Lex.toLex_lt_toLex, hvalue, BitVec.toInt_inj]

theorem key_lt_of_lt {p q : RatingPatchEntry dm} (h : p.lt q = true) :
    p.key < q.key := by
  unfold lt at h
  rw [key_lt_key]
  split at h
  · exact Or.inl (of_decide_eq_true h)
  · rename_i hea
    rw [not_not] at hea
    split at h
    · exact Or.inr ⟨hea, Or.inl (of_decide_eq_true h)⟩
    · rename_i hct
      exact Or.inr ⟨hea, Or.inr ⟨not_not.mp hct, Or.inl (of_decide_eq_true h)⟩⟩

/-- Behind the entries that are not greater, if those that compare equal
belong to smaller ids. -/
theorem key_lt_of_not_lt {p q : RatingPatchEntry dm} (h : p.lt q ≠ true)
    (hequal : q.elementsAfter = p.elementsAfter → q.changeType = p.changeType →
      q.userData.owner.toInt < p.userData.owner.toInt) : q.key < p.key := by
  unfold lt at h
  rw [key_lt_key]
  split at h
  · rename_i hea
    rw [ne_eq, decide_eq_true_eq] at h
    exact Or.inl (by omega)
  · rename_i hea
    rw [not_not] at hea
    refine Or.inr ⟨hea.symm, ?_⟩
    split at h
    · rename_i hct
      left
      revert h hct
      cases p.changeType <;> cases q.changeType <;>
        simp [RatingChangeType.value]
    · rename_i hct
      rw [not_not] at hct
      refine Or.inr ⟨hct.symm, ?_⟩
      rw [ne_eq, decide_eq_true_eq, not_lt] at h
      rcases lt_or_eq_of_le h with hlt | heq
      · exact Or.inl hlt
      · exact Or.inr ⟨BitVec.toInt_inj.mp heq, hequal hea.symm hct.symm⟩

end RatingPatchEntry

/-- Insertion into a sorted list, where a list element is either greater than
the new one and says so, or less than it. -/
theorem pairwise_orderedInsert {α : Type*} {r S : α → α → Prop}
    [DecidableRel r] (htrans : ∀ a b c, S a b → S b c → S a c) {a : α} :
    ∀ {l : List α}, l.Pairwise S → (∀ b ∈ l, r a b → S a b) →
      (∀ b ∈ l, ¬ r a b → S b a) → (l.orderedInsert r a).Pairwise S
  | [], _, _, _ => List.pairwise_singleton _ _
  | b :: l, hl, hlt, hge => by
      obtain ⟨hb, hl'⟩ := List.pairwise_cons.mp hl
      rw [List.orderedInsert]
      split
      · rename_i hab
        have hSab := hlt b List.mem_cons_self hab
        refine List.pairwise_cons.mpr ⟨fun c hc => ?_, hl⟩
        rcases List.mem_cons.mp hc with rfl | hc
        · exact hSab
        · exact htrans a b c hSab (hb c hc)
      · rename_i hab
        refine List.pairwise_cons.mpr ⟨fun c hc => ?_,
          pairwise_orderedInsert htrans hl'
            (fun c hc => hlt c (List.mem_cons_of_mem _ hc))
            (fun c hc => hge c (List.mem_cons_of_mem _ hc))⟩
        rcases (List.mem_orderedInsert r).mp hc with rfl | hc
        · exact hge b List.mem_cons_self hab
        · exact hb c hc

/-- **One more patch in the multiset**, behind those that compare equal. -/
theorem RatingPatchSet.emplace_sorted {set : RatingPatchSet dm}
    {entry : RatingPatchEntry dm}
    (h : set.Pairwise fun p q => p.key < q.key)
    (hequal : ∀ q ∈ set, q.elementsAfter = entry.elementsAfter →
      q.changeType = entry.changeType →
      q.userData.owner.toInt < entry.userData.owner.toInt) :
    (set.emplace entry).Pairwise fun p q => p.key < q.key := by
  unfold emplace
  apply pairwise_orderedInsert
  · intro p q r hpq hqr
    exact lt_trans hpq hqr
  · exact h
  · intro q _ hlt
    exact RatingPatchEntry.key_lt_of_lt hlt
  · intro q hq hnot
    exact RatingPatchEntry.key_lt_of_not_lt hnot (hequal q hq)

theorem RatingPatchSet.emplace_perm (set : RatingPatchSet dm)
    (entry : RatingPatchEntry dm) :
    (set.emplace entry).Perm (entry :: set) :=
  List.perm_orderedInsert _ entry set

/-! ## §3  One deal, and the loop -/

theorem ascending_toList {V : Type} (m : Std.TreeMap IdT V) :
    m.toList.Pairwise fun a b => a.1.toInt < b.1.toInt := by
  refine Std.TreeMap.ordered_keys_toList.imp fun {a b} h => ?_
  have hlt : a.1 < b.1 := by
    by_contra hnot
    simp only [compare, compareOfLessAndEq, if_neg hnot] at h
    split at h <;> cases h
  exact Int32.lt_iff_toInt_lt.mp hlt

def RatingPatchEntry.shape (p : RatingPatchEntry dm) : RatingPatchEntry dm :=
  { p with userData := ⟨p.userData.owner, 0⟩ }

namespace CoreRatingData

def removal (d : CoreRatingData dm) (rank : ℤ) : RatingPatchEntry dm :=
  { elementsAfter := d.rating.length - rank - 1 }

/-- The patch that puts a user where his new winnings belong, pointer serial
left out. -/
def insertion (d : CoreRatingData dm) (id : IdT) (w : MonetaryT dm) :
    RatingPatchEntry dm :=
  { userData := ⟨id, 0⟩
    elementsAfter := d.elementsAfter w
    changeType := .newPosition
    amountWon := w }

@[simp] theorem toPatch_removal (d : CoreRatingData dm) (rank : ℤ) :
    (d.removal rank).toPatch =
      .remove (d.rating.length - rank - 1).toNat := rfl

@[simp] theorem toPatch_insertion (d : CoreRatingData dm) (id : IdT)
    (w : MonetaryT dm) :
    (d.insertion id w).toPatch = .insert (d.elementsAfter w) ⟨id, 0⟩ := rfl

def dealShapes (d : CoreRatingData dm) (e : IdT × MonetaryT dm) :
    List (RatingPatchEntry dm) :=
  match d.userState e.1 with
  | .unregistered => []
  | .silent _ => [d.insertion e.1 (d.winnings e.1 + e.2)]
  | .active u =>
      [d.removal u.rating, d.insertion e.1 (d.winnings e.1 + e.2)]

theorem mem_dealShapes {d : CoreRatingData dm} {e : IdT × MonetaryT dm}
    {q : RatingPatchEntry dm} :
    q ∈ d.dealShapes e ↔
      (∃ u, d.userState e.1 = .active u ∧ q = d.removal u.rating) ∨
        (d.userState e.1).isRegistered ∧
          q = d.insertion e.1 (d.winnings e.1 + e.2) := by
  unfold dealShapes
  cases d.userState e.1 <;> simp [UserState.isRegistered]

theorem rated_of_active {d : CoreRatingData dm} {id : IdT}
    {u : FullUserData dm} (h : d.userState id = .active u) :
    d.rated id = some u.rated := by
  rw [rated, lookup_of_userState_active h]
  rfl

theorem active_of_rated {d : CoreRatingData dm} {id : IdT}
    {r : RatedData dm} (h : d.rated id = some r) :
    ∃ u, d.userState id = .active u ∧ u.rated = r := by
  obtain ⟨u, hu, hr⟩ := Option.map_eq_some_iff.mp h
  exact ⟨u, userState_active hu, hr⟩

theorem rated_eq_none {d : CoreRatingData dm} {id : IdT}
    (h : (d.userState id).isActive = false) : d.rated id = none := by
  cases hr : d.rated id with
  | none => rfl
  | some r =>
      obtain ⟨u, hu, -⟩ := active_of_rated hr
      rw [hu] at h
      cases h

theorem winnings_of_active {d : CoreRatingData dm} {id : IdT}
    {u : FullUserData dm} (h : d.activeUsers.lookup id = some u) :
    d.winnings id = u.amountWon := by
  rw [winnings, rated, h]
  rfl

theorem winnings_of_silent {d : CoreRatingData dm} {id : IdT}
    (h : d.activeUsers.lookup id = none) : d.winnings id = 0 := by
  rw [winnings, rated, h]
  rfl

end CoreRatingData

namespace RatingCalculatorImpl

/-- The state of `processDeals` once the deals `done` are processed. -/
structure DealsInv (s₀ : RatingCalculatorImpl dm n)
    (done : List (IdT × MonetaryT dm)) (s : RatingCalculatorImpl dm n) :
    Prop where
  rating : s.userData.rating = s₀.userData.rating
  rated : ∀ id r, s₀.userData.rated id = some r → s.userData.rated id = some r
  disjoint : s.userData.Disjoint
  dealt : ∀ e ∈ done,
    (s₀.userState e.1).Dealt e.1 e.2 (s.userState e.1)
  others : ∀ id, id ∉ done.map Prod.fst → s.userState id = s₀.userState id
  shapes : (s.ratingPatches.map RatingPatchEntry.shape).Perm
    (done.flatMap s₀.userData.dealShapes)
  sorted : s.ratingPatches.Pairwise fun p q => p.key < q.key
  live : ∀ p ∈ s.ratingPatches, p.changeType = .newPosition →
    s.userData.Live p.userData
  fresh : s.freshRatings = done.countP fun e => (s₀.userState e.1).isSilent

theorem dealsInv_nil {s₀ : RatingCalculatorImpl dm n}
    (hdisj : s₀.userData.Disjoint) (hpatches : s₀.ratingPatches = [])
    (hfresh : s₀.freshRatings = 0) : DealsInv s₀ [] s₀ where
  rating := rfl
  rated := fun _ _ => id
  disjoint := hdisj
  dealt := fun _ he => absurd he List.not_mem_nil
  others := fun _ _ => rfl
  shapes := by rw [hpatches]; exact List.Perm.refl _
  sorted := by rw [hpatches]; exact List.Pairwise.nil
  live := fun p hp => by rw [hpatches] at hp; cases hp
  fresh := by rw [hfresh]; rfl

section Loop

variable {s₀ s : RatingCalculatorImpl dm n}
  {done : List (IdT × MonetaryT dm)} {e : IdT × MonetaryT dm}

/-- Every patch belongs to one of the deals: it takes the user of the deal
out, or puts him in. -/
theorem DealsInv.of_mem (h : DealsInv s₀ done s) {q : RatingPatchEntry dm}
    (hq : q ∈ s.ratingPatches) :
    (q.changeType = .oldPosition ∧ q.amountWon = 0 ∧
      q.userData.owner = invalidId ∧
      ∃ id ∈ done.map Prod.fst, ∃ u, s₀.userState id = .active u ∧
        q.elementsAfter = s₀.userData.rating.length - u.rating - 1) ∨
    (q.changeType = .newPosition ∧ ∃ e ∈ done,
      (s₀.userState e.1).isRegistered ∧ q.userData.owner = e.1 ∧
      q.amountWon = s₀.userData.winnings e.1 + e.2 ∧
      q.elementsAfter =
        s₀.userData.elementsAfter (s₀.userData.winnings e.1 + e.2)) := by
  obtain ⟨e, he, hshape⟩ := List.mem_flatMap.mp
    (h.shapes.mem_iff.mp (List.mem_map_of_mem hq))
  have hfield : ∀ {β : Type} (f : RatingPatchEntry dm → β) {p},
      q.shape = p → f q.shape = f p := fun f _ heq => congrArg f heq
  rcases CoreRatingData.mem_dealShapes.mp hshape with ⟨u, hu, heq⟩ | ⟨hreg, heq⟩
  · exact Or.inl ⟨hfield RatingPatchEntry.changeType heq,
      hfield RatingPatchEntry.amountWon heq,
      hfield (fun p => p.userData.owner) heq, e.1, List.mem_map_of_mem he, u, hu,
      hfield RatingPatchEntry.elementsAfter heq⟩
  · exact Or.inr ⟨hfield RatingPatchEntry.changeType heq, e, he, hreg,
      hfield (fun p => p.userData.owner) heq,
      hfield RatingPatchEntry.amountWon heq,
      hfield RatingPatchEntry.elementsAfter heq⟩

theorem DealsInv.insertion_owner (h : DealsInv s₀ done s)
    {q : RatingPatchEntry dm} (hq : q ∈ s.ratingPatches)
    (hnew : q.changeType = .newPosition) :
    q.userData.owner ∈ done.map Prod.fst := by
  rcases h.of_mem hq with ⟨hold, -⟩ | ⟨-, e, he, -, howner, -⟩
  · rw [hnew] at hold
    cases hold
  · exact howner ▸ List.mem_map_of_mem he

theorem DealsInv.removal_rank (h : DealsInv s₀ done s)
    {q : RatingPatchEntry dm} (hq : q ∈ s.ratingPatches)
    (hold : q.changeType = .oldPosition) :
    ∃ id ∈ done.map Prod.fst, ∃ u, s₀.userState id = .active u ∧
      q.elementsAfter = s₀.userData.rating.length - u.rating - 1 := by
  rcases h.of_mem hq with ⟨-, -, -, hrank⟩ | ⟨hnew, -⟩
  · exact hrank
  · rw [hold] at hnew
    cases hnew

theorem not_mem_of_ascending
    (hasc : ∀ a ∈ done, a.1.toInt < e.1.toInt) : e.1 ∉ done.map Prod.fst := by
  intro hmem
  obtain ⟨a, ha, heq⟩ := List.mem_map.mp hmem
  have := hasc a ha
  rw [heq] at this
  exact lt_irrefl _ this

/-- The insertion of a new deal goes behind the entries equal to it. -/
theorem DealsInv.emplace_insertion (h : DealsInv s₀ done s)
    (hasc : ∀ a ∈ done, a.1.toInt < e.1.toInt) {set : RatingPatchSet dm}
    {serial : ℕ} {w : MonetaryT dm}
    (hset : set.Pairwise fun p q => p.key < q.key)
    (hnew : ∀ q ∈ set, q.changeType = .newPosition → q ∈ s.ratingPatches) :
    (set.emplace { s₀.userData.insertion e.1 w with
      userData := ⟨e.1, serial⟩ }).Pairwise fun p q => p.key < q.key := by
  apply RatingPatchSet.emplace_sorted hset
  intro q hq _ hct
  obtain ⟨a, ha, heq⟩ := List.mem_map.mp
    (h.insertion_owner (hnew q hq hct) hct)
  exact heq ▸ hasc a ha

/-- No two deals take the same position out. -/
theorem DealsInv.emplace_removal (h : DealsInv s₀ done s)
    (hint : s₀.userData.RatingIntegrity)
    (hasc : ∀ a ∈ done, a.1.toInt < e.1.toInt) {u : FullUserData dm}
    (hu : s₀.userState e.1 = .active u) :
    (s.ratingPatches.emplace (s₀.userData.removal u.rating)).Pairwise
      fun p q => p.key < q.key := by
  apply RatingPatchSet.emplace_sorted h.sorted
  intro q hq hea hct
  obtain ⟨id, hid, v, hv, hrank⟩ := h.removal_rank hq hct
  -- equal positions mean the same user
  have hu' := hint.stands (CoreRatingData.rated_of_active hu)
  have hv' := hint.stands (CoreRatingData.rated_of_active hv)
  have hsame : v.rated.rank = u.rated.rank := by
    rw [hrank] at hea
    simp only [CoreRatingData.removal] at hea
    simp only [FullUserData.rated]
    omega
  rw [hsame, hu'.2] at hv'
  have howner : e.1 = id := congrArg UserRef.owner (Option.some_inj.mp hv'.2)
  exact absurd (howner ▸ hid) (not_mem_of_ascending hasc)

/-- **One deal processed**: what the code does at a deal, put together. -/
theorem DealsInv.snoc {s' : RatingCalculatorImpl dm n} (h : DealsInv s₀ done s)
    (hasc : ∀ a ∈ done, a.1.toInt < e.1.toInt)
    (hrating : s'.userData.rating = s.userData.rating)
    (hrated : ∀ id r, s.userData.rated id = some r →
      s'.userData.rated id = some r)
    (hdisj : s'.userData.Disjoint)
    (hself : (s.userState e.1).Dealt e.1 e.2 (s'.userState e.1))
    (hothers : ∀ id, id ≠ e.1 → s'.userState id = s.userState id)
    (hperm : (s'.ratingPatches.map RatingPatchEntry.shape).Perm
      (s₀.userData.dealShapes e ++ s.ratingPatches.map RatingPatchEntry.shape))
    (hsorted : s'.ratingPatches.Pairwise fun p q => p.key < q.key)
    (hlive : ∀ p ∈ s'.ratingPatches, p.changeType = .newPosition →
      s'.userData.Live p.userData)
    (hfresh : s'.freshRatings =
      s.freshRatings + if (s.userState e.1).isSilent then 1 else 0) :
    DealsInv s₀ (done ++ [e]) s' := by
  have hnew := not_mem_of_ascending hasc
  have hbefore := h.others e.1 hnew
  refine
    { rating := hrating.trans h.rating
      rated := fun id r hr => hrated id r (h.rated id r hr)
      disjoint := hdisj, dealt := ?_, others := ?_, shapes := ?_
      sorted := hsorted, live := hlive, fresh := ?_ }
  · intro a ha
    rcases List.mem_append.mp ha with ha | ha
    · rw [hothers a.1 fun heq => hnew (heq ▸ List.mem_map_of_mem ha)]
      exact h.dealt a ha
    · rw [List.mem_singleton.mp ha, ← hbefore]
      exact hself
  · intro id hid
    rw [List.map_append, List.mem_append, not_or] at hid
    rw [hothers id fun heq => hid.2 (by simp [heq])]
    exact h.others id hid.1
  · rw [List.flatMap_append, List.flatMap_singleton]
    exact (hperm.trans (List.Perm.append_left _ h.shapes)).trans
      List.perm_append_comm
  · rw [hfresh, h.fresh, hbefore, List.countP_append, List.countP_singleton]
    split <;> simp_all

theorem DealsInv.processActiveDeal (h : DealsInv s₀ done s)
    (hint : s₀.userData.RatingIntegrity)
    (hsize : s₀.userData.rating.length < 2 ^ 31)
    (hasc : ∀ a ∈ done, a.1.toInt < e.1.toInt) {u : FullUserData dm}
    (hself : s.userState e.1 = .active u) :
    ∃ s', s.processActiveDeal e u = .ok s' ∧
      DealsInv s₀ (done ++ [e]) s' := by
  have hu : s₀.userState e.1 = .active u :=
    (h.others e.1 (not_mem_of_ascending hasc)).symm.trans hself
  have hlookup := CoreRatingData.lookup_of_userState_active hself
  have hwinnings : s₀.userData.winnings e.1 = u.amountWon :=
    CoreRatingData.winnings_of_active
      (CoreRatingData.lookup_of_userState_active hu)
  have hremoval : ({ elementsAfter := toInt s.userData.rating.length -
      u.rating - 1 } : RatingPatchEntry dm) =
      s₀.userData.removal u.rating := by
    rw [h.rating, toInt_of_lt hsize]
    rfl
  have hafter := hint.ratingElementsAfter hsize h.rating h.rated
    (u.amountWon + e.2)
  have hdeal : s₀.userData.dealShapes e = [s₀.userData.removal u.rating,
      s₀.userData.insertion e.1 (u.amountWon + e.2)] := by
    unfold CoreRatingData.dealShapes
    rw [show s₀.userData.userState e.1 = _ from hu, hwinnings]
  have hperm := (RatingPatchSet.emplace_perm
      (s.ratingPatches.emplace (s₀.userData.removal u.rating))
      { s₀.userData.insertion e.1 (u.amountWon + e.2) with
        userData := ⟨e.1, u.serial⟩ }).trans
    ((RatingPatchSet.emplace_perm s.ratingPatches
      (s₀.userData.removal u.rating)).cons _)
  refine ⟨_, by rw [RatingCalculatorImpl.processActiveDeal, hremoval, hafter,
    ok_bind], ?_⟩
  refine h.snoc hasc rfl (fun _ _ => id) h.disjoint ?_ ?_ ?_ ?_ ?_ ?_
  · show (s.userState e.1).Dealt e.1 e.2 (s.userState e.1)
    rw [hself]
    exact .active u
  · exact fun _ _ => rfl
  · rw [hdeal]
    exact (hperm.map RatingPatchEntry.shape).trans (List.Perm.swap _ _ _)
  · refine h.emplace_insertion hasc (h.emplace_removal hint hasc hu) ?_
    intro q hq hct
    rcases List.mem_cons.mp
      ((RatingPatchSet.emplace_perm _ _).mem_iff.mp hq) with rfl | hq
    · cases hct
    · exact hq
  · intro q hq hct
    rcases List.mem_cons.mp (hperm.mem_iff.mp hq) with rfl | hq
    · exact ⟨u, hlookup, rfl⟩
    · rcases List.mem_cons.mp hq with rfl | hq
      · cases hct
      · exact h.live q hq hct
  · rw [hself]
    simp [UserState.isSilent]

/-- A deal for a silent user: his record turns into an object of the active
users' table. -/
theorem DealsInv.processSilentDeal (h : DealsInv s₀ done s)
    (hint : s₀.userData.RatingIntegrity)
    (hsize : s₀.userData.rating.length < 2 ^ 31)
    (hasc : ∀ a ∈ done, a.1.toInt < e.1.toInt) {u : BasicUserData}
    (hself : s.userState e.1 = .silent u) :
    ∃ s', s.processSilentDeal e u = .ok s' ∧
      DealsInv s₀ (done ++ [e]) s' := by
  have hu : s₀.userState e.1 = .silent u :=
    (h.others e.1 (not_mem_of_ascending hasc)).symm.trans hself
  obtain ⟨hactive, hsilent⟩ := CoreRatingData.lookup_of_userState_silent hself
  have hwinnings : s₀.userData.winnings e.1 = 0 :=
    CoreRatingData.winnings_of_silent
      (CoreRatingData.lookup_of_userState_silent hu).1
  have hafter := hint.ratingElementsAfter hsize h.rating h.rated e.2
  have hdeal : s₀.userData.dealShapes e =
      [s₀.userData.insertion e.1 e.2] := by
    unfold CoreRatingData.dealShapes
    rw [show s₀.userData.userState e.1 = _ from hu, hwinnings]
    exact congrArg (fun w => [s₀.userData.insertion e.1 w])
      (BitVec.zero_add e.2)
  have hperm := RatingPatchSet.emplace_perm s.ratingPatches
    { s₀.userData.insertion e.1 e.2 with
      userData := ⟨e.1, s.userData.nextSerial⟩ }
  have hemplace := UnorderedMap.lookup_emplace_self s.userData.activeUsers e.1
    { u with id := e.1, amountWon := e.2, serial := s.userData.nextSerial }
  rw [hactive, Option.getD_none] at hemplace
  refine ⟨_, by rw [RatingCalculatorImpl.processSilentDeal]; simp only [hafter];
                rfl, ?_⟩
  refine h.snoc hasc rfl ?_ ?_ ?_ ?_ ?_ ?_ ?_ ?_
  · intro id r hr
    obtain ⟨v, hv, rfl⟩ := Option.map_eq_some_iff.mp hr
    have hne : id ≠ e.1 := by
      rintro rfl
      exact Option.some_ne_none v (hv.symm.trans hactive)
    refine Option.map_eq_some_iff.mpr ⟨v, ?_, rfl⟩
    exact (UnorderedMap.lookup_emplace_ne _ _ hne).trans hv
  · intro id v hv
    by_cases hid : id = e.1
    · rw [hid]
      exact AList.lookup_erase _ _
    · exact (AList.lookup_erase_ne hid).trans (h.disjoint id v
        ((UnorderedMap.lookup_emplace_ne _ _ hid).symm.trans hv))
  · rw [hself, userState, CoreRatingData.userState_active hemplace]
    exact .silent u _
  · intro id hid
    exact CoreRatingData.userState_congr
      (UnorderedMap.lookup_emplace_ne _ _ hid) (AList.lookup_erase_ne hid)
  · rw [hdeal]
    exact hperm.map RatingPatchEntry.shape
  · exact h.emplace_insertion hasc h.sorted fun q hq _ => hq
  · intro q hq hct
    rcases List.mem_cons.mp (hperm.mem_iff.mp hq) with rfl | hq
    · exact ⟨_, hemplace, rfl⟩
    · obtain ⟨v, hv, hvs⟩ := h.live q hq hct
      have hne : q.userData.owner ≠ e.1 := by
        intro heq
        rw [heq] at hv
        exact Option.some_ne_none v (hv.symm.trans hactive)
      exact ⟨v, (UnorderedMap.lookup_emplace_ne _ _ hne).trans hv, hvs⟩
  · rw [hself]
    simp [UserState.isSilent]

/-- **One turn of `processDeals`.** -/
theorem DealsInv.processDeal (h : DealsInv s₀ done s)
    (hint : s₀.userData.RatingIntegrity)
    (hsize : s₀.userData.rating.length < 2 ^ 31)
    (hasc : ∀ a ∈ done, a.1.toInt < e.1.toInt) :
    ∃ s', s.processDeal e = .ok s' ∧ DealsInv s₀ (done ++ [e]) s' := by
  unfold RatingCalculatorImpl.processDeal
  cases ha : s.userData.activeUsers.lookup e.1 with
  | some u =>
      exact h.processActiveDeal hint hsize hasc
        (CoreRatingData.userState_active ha)
  | none =>
      cases hs : s.userData.silentUsers.lookup e.1 with
      | some u =>
          exact h.processSilentDeal hint hsize hasc
            (CoreRatingData.userState_silent ha hs)
      | none =>
          -- an error for the client, no more
          have hself : s.userState e.1 = .unregistered :=
            CoreRatingData.userState_unregistered ha hs
          have hnone : s₀.userData.dealShapes e = [] := by
            unfold CoreRatingData.dealShapes
            rw [show s₀.userData.userState e.1 = _ from
              (h.others e.1 (not_mem_of_ascending hasc)).symm.trans hself]
          refine ⟨_, rfl, h.snoc hasc rfl (fun _ _ => id) h.disjoint ?_
            (fun _ _ => rfl) ?_ h.sorted h.live ?_⟩
          · show (s.userState e.1).Dealt e.1 e.2 (s.userState e.1)
            rw [hself]
            exact .unregistered
          · rw [hnone]
            exact List.Perm.refl _
          · rw [hself]
            exact (add_zero s.freshRatings).symm

theorem DealsInv.foldlM_processDeal (hint : s₀.userData.RatingIntegrity)
    (hsize : s₀.userData.rating.length < 2 ^ 31) :
    ∀ (l done : List (IdT × MonetaryT dm)) (s : RatingCalculatorImpl dm n),
      DealsInv s₀ done s →
      (done ++ l).Pairwise (fun a b => a.1.toInt < b.1.toInt) →
      ∃ s', l.foldlM RatingCalculatorImpl.processDeal s = .ok s' ∧
        DealsInv s₀ (done ++ l) s'
  | [], done, s, h, _ => ⟨s, rfl, by rwa [List.append_nil]⟩
  | e :: l, done, s, h, hasc => by
      have hbefore : ∀ a ∈ done, a.1.toInt < e.1.toInt := fun a ha =>
        (List.pairwise_append.mp hasc).2.2 a ha e List.mem_cons_self
      obtain ⟨s₁, hs₁, h₁⟩ := h.processDeal hint hsize hbefore
      rw [List.append_cons] at hasc
      obtain ⟨s₂, hs₂, h₂⟩ := foldlM_processDeal hint hsize l _ s₁ h₁ hasc
      rw [← List.append_cons] at h₂
      exact ⟨s₂, by rw [List.foldlM_cons, hs₁]; exact hs₂, h₂⟩

/-- **The loop of `processDeals`** prepares the patches of all deals. -/
theorem processDeals_spec (hint : s₀.userData.RatingIntegrity)
    (hsize : s₀.userData.rating.length < 2 ^ 31)
    (hdisj : s₀.userData.Disjoint) (hpatches : s₀.ratingPatches = [])
    (hfresh : s₀.freshRatings = 0) :
    ∃ s, s₀.processDeals = .ok s ∧
      DealsInv s₀ s₀.incomingBuffer.dealsWon.toList s := by
  obtain ⟨s, hs, h⟩ := DealsInv.foldlM_processDeal hint hsize
    s₀.incomingBuffer.dealsWon.toList [] s₀
    (dealsInv_nil hdisj hpatches hfresh)
    (by rw [List.nil_append]; exact ascending_toList _)
  refine ⟨{ s with
      incomingBuffer := { s.incomingBuffer with dealsWon := ∅ } },
    by rw [processDeals, hs]; rfl, ?_⟩
  exact ⟨h.rating, h.rated, h.disjoint, h.dealt, h.others, h.shapes, h.sorted,
    h.live, h.fresh⟩

/-! ## §4  What the merge asks of its patches -/

theorem DealsInv.countP_patches (h : DealsInv s₀ done s)
    {Q : Patch UserRef → Bool}
    (hQ : ∀ k a b, Q (.insert k a) = Q (.insert k b))
    {A : IdT × MonetaryT dm → Bool}
    (hA : ∀ e, ((s₀.userData.dealShapes e).countP fun p => Q p.toPatch) =
      if A e then 1 else 0) :
    (s.ratingPatches.map RatingPatchEntry.toPatch).countP Q =
      done.countP A := by
  have hshape : ∀ p : RatingPatchEntry dm, Q p.shape.toPatch = Q p.toPatch := by
    intro p
    unfold RatingPatchEntry.toPatch RatingPatchEntry.shape
    cases p.changeType with
    | oldPosition => rfl
    | newPosition => exact hQ _ _ _
  have hflat : ∀ l : List (IdT × MonetaryT dm),
      ((l.flatMap s₀.userData.dealShapes).countP fun p => Q p.toPatch) =
        l.countP A := by
    intro l
    induction l with
    | nil => rfl
    | cons e l ih =>
        rw [List.flatMap_cons, List.countP_append, ih, hA, List.countP_cons,
          Nat.add_comm]
  rw [List.countP_map, ← hflat done, ← h.shapes.countP_eq, List.countP_map]
  exact List.countP_congr fun p _ => by simp [hshape]

/-- Every deal that counts is an insertion, every one of a rated user a
removal as well. -/
theorem DealsInv.inserts_eq (h : DealsInv s₀ done s) :
    inserts (s.ratingPatches.map RatingPatchEntry.toPatch) =
      done.countP fun e => (s₀.userState e.1).isRegistered := by
  refine h.countP_patches (fun _ _ _ => rfl) fun e => ?_
  unfold CoreRatingData.dealShapes userState
  cases s₀.userData.userState e.1 <;> rfl

theorem DealsInv.removes_eq (h : DealsInv s₀ done s) :
    removes (s.ratingPatches.map RatingPatchEntry.toPatch) =
      done.countP fun e => (s₀.userState e.1).isActive := by
  refine h.countP_patches (fun _ _ _ => rfl) fun e => ?_
  unfold CoreRatingData.dealShapes userState
  cases s₀.userData.userState e.1 <;> rfl

theorem countP_isRegistered (l : List (IdT × MonetaryT dm)) :
    (l.countP fun e => (s₀.userState e.1).isRegistered) =
      (l.countP fun e => (s₀.userState e.1).isSilent) +
        l.countP fun e => (s₀.userState e.1).isActive := by
  induction l with
  | nil => rfl
  | cons e l ih =>
      simp only [List.countP_cons, ih]
      cases s₀.userState e.1 <;>
        simp [UserState.isRegistered, UserState.isSilent, UserState.isActive] <;>
        omega

theorem rank_of_active (hint : s₀.userData.RatingIntegrity) {id : IdT}
    {u : FullUserData dm} (hu : s₀.userState id = .active u) :
    0 ≤ u.rating ∧ u.rating < s₀.userData.rating.length ∧
      s₀.userData.rating[u.rating.toNat]? = some ⟨id, u.serial⟩ := by
  have hstands := hint.stands (CoreRatingData.rated_of_active hu)
  obtain ⟨hlt, -⟩ := List.getElem?_eq_some_iff.mp hstands.2
  have hnonneg : 0 ≤ u.rating := hstands.1
  simp only [FullUserData.rated] at hlt
  exact ⟨hnonneg, by omega, hstands.2⟩

theorem DealsInv.bounded (h : DealsInv s₀ done s)
    (hint : s₀.userData.RatingIntegrity) :
    ∀ p ∈ s.ratingPatches, 0 ≤ p.elementsAfter ∧
      p.toPatch.consumed ≤ s₀.userData.rating.length := by
  intro p hp
  unfold RatingPatchEntry.toPatch
  rcases h.of_mem hp with ⟨hct, -, -, id, -, u, hu, hea⟩ |
    ⟨hct, e, -, -, -, -, hea⟩
  · have hrank := rank_of_active hint hu
    simp only [hct, Patch.consumed]
    omega
  · have hle := s₀.userData.elementsAfter_le (s₀.userData.winnings e.1 + e.2)
    simp only [hct, Patch.consumed]
    omega

theorem DealsInv.ordered (h : DealsInv s₀ done s)
    (hint : s₀.userData.RatingIntegrity) :
    Ordered s₀.userData.rating.length
      (s.ratingPatches.map RatingPatchEntry.toPatch) := by
  constructor
  · rw [List.pairwise_map]
    refine h.sorted.imp_of_mem fun {p q} hp hq hlt => ?_
    have hp0 := (h.bounded hint p hp).1
    have hq0 := (h.bounded hint q hq).1
    rw [RatingPatchEntry.key_lt_key] at hlt
    rw [q.behind_toPatch]
    cases hct : p.changeType with
    | newPosition =>
        simp only [RatingPatchEntry.toPatch, hct, Patch.consumed]
        omega
    | oldPosition =>
        -- no two removals of one position, and no insertion behind one
        have hea : p.elementsAfter < q.elementsAfter := by
          rcases hlt with hlt | ⟨-, hvalue | ⟨hsame, hlt⟩⟩
          · exact hlt
          · rw [hct] at hvalue
            cases hqt : q.changeType <;> rw [hqt] at hvalue <;>
              exact absurd hvalue (by decide)
          · rcases h.of_mem hp with ⟨-, hpa, hpo, -⟩ | ⟨hnew, -⟩
            · rcases h.of_mem hq with ⟨-, hqa, hqo, -⟩ | ⟨hnew, -⟩
              · rw [hpa, hqa, hpo, hqo] at hlt
                exact absurd hlt (by simp)
              · rw [← hsame, hct] at hnew
                cases hnew
            · rw [hct] at hnew
              cases hnew
        simp only [RatingPatchEntry.toPatch, hct, Patch.consumed]
        omega
  · intro p hp
    obtain ⟨q, hq, rfl⟩ := List.mem_map.mp hp
    exact (h.bounded hint q hq).2

/-- **The patches fit the merge.** -/
theorem DealsInv.patchesFit (h : DealsInv s₀ done s)
    (hint : s₀.userData.RatingIntegrity) :
    PatchesFit s.userData (done.countP fun e => (s₀.userState e.1).isSilent)
      s.ratingPatches where
  nonneg := fun p hp => (h.bounded hint p hp).1
  ordered := by rw [h.rating]; exact h.ordered hint
  total := by rw [h.inserts_eq, h.removes_eq, countP_isRegistered]
  live := h.live

/-- The removals touch the positions of the rated users with a deal. -/
theorem DealsInv.removed_iff (h : DealsInv s₀ done s)
    (hint : s₀.userData.RatingIntegrity) {e : ℕ} {p : UserRef}
    (he : s₀.userData.rating.reverse[e]? = some p) :
    Removed (s.ratingPatches.map RatingPatchEntry.toPatch) e ↔
      p.owner ∈ done.map Prod.fst := by
  obtain ⟨hlt, -⟩ := List.getElem?_eq_some_iff.mp he
  rw [List.length_reverse] at hlt
  rw [List.getElem?_reverse hlt] at he
  constructor
  · intro hrem
    obtain ⟨q, hq, hqe⟩ := List.mem_map.mp hrem
    unfold RatingPatchEntry.toPatch at hqe
    split at hqe
    · rename_i hct
      obtain ⟨id, hid, u, hu, hea⟩ := h.removal_rank hq hct
      obtain ⟨hnonneg, hlast, hstands⟩ := rank_of_active hint hu
      have hqe : q.elementsAfter.toNat = e := by injection hqe
      rw [show u.rating.toNat = s₀.userData.rating.length - 1 - e by omega, he]
        at hstands
      exact (Option.some_inj.mp hstands) ▸ hid
    · cases hqe
  · intro hmem
    obtain ⟨a, ha, howner⟩ := List.mem_map.mp hmem
    obtain ⟨r, hr, -, hrank⟩ := hint.ranked _ _ he
    obtain ⟨u, hu, rfl⟩ := Option.map_eq_some_iff.mp hr
    have hshape : s₀.userData.removal u.rating ∈ s₀.userData.dealShapes a :=
      CoreRatingData.mem_dealShapes.mpr (Or.inl ⟨u, by
        rw [howner]; exact CoreRatingData.userState_active hu, rfl⟩)
    obtain ⟨q, hq, hqshape⟩ := List.mem_map.mp
      (h.shapes.mem_iff.mpr (List.mem_flatMap.mpr ⟨a, ha, hshape⟩))
    have hct : q.changeType = .oldPosition :=
      congrArg RatingPatchEntry.changeType hqshape
    have hea : q.elementsAfter = s₀.userData.rating.length - u.rating - 1 :=
      congrArg RatingPatchEntry.elementsAfter hqshape
    refine List.mem_map.mpr ⟨q, hq, ?_⟩
    simp only [RatingPatchEntry.toPatch, hct, hea, Patch.remove.injEq]
    simp only [FullUserData.rated] at hrank
    omega

theorem DealsInv.inserted_iff (h : DealsInv s₀ done s) {k : ℕ} {p : UserRef} :
    .insert k p ∈ s.ratingPatches.map RatingPatchEntry.toPatch ↔
      s.userData.Live p ∧ ∃ e ∈ done, (s₀.userState e.1).isRegistered ∧
        p.owner = e.1 ∧
        k = s₀.userData.elementsAfter (s₀.userData.winnings e.1 + e.2) := by
  constructor
  · intro hmem
    obtain ⟨q, hq, hqp⟩ := List.mem_map.mp hmem
    unfold RatingPatchEntry.toPatch at hqp
    rcases h.of_mem hq with ⟨hct, -⟩ | ⟨hct, e, he, hreg, howner, -, hea⟩
    · rw [hct] at hqp
      cases hqp
    · rw [hct] at hqp
      have hlive := h.live q hq hct
      cases hqp
      exact ⟨hlive, e, he, hreg, howner, by rw [hea]; rfl⟩
  · rintro ⟨hlive, e, he, hreg, howner, rfl⟩
    have hshape : s₀.userData.insertion e.1 (s₀.userData.winnings e.1 + e.2) ∈
        s₀.userData.dealShapes e :=
      CoreRatingData.mem_dealShapes.mpr (Or.inr ⟨hreg, rfl⟩)
    obtain ⟨q, hq, hqshape⟩ := List.mem_map.mp
      (h.shapes.mem_iff.mpr (List.mem_flatMap.mpr ⟨e, he, hshape⟩))
    have hct : q.changeType = .newPosition :=
      congrArg RatingPatchEntry.changeType hqshape
    have hea := congrArg RatingPatchEntry.elementsAfter hqshape
    have hqo : q.userData.owner = p.owner :=
      (congrArg (fun p => p.userData.owner) hqshape).trans howner.symm
    have hqp := (h.live q hq hct).eq_of_owner hlive hqo
    refine List.mem_map.mpr ⟨q, hq, ?_⟩
    rw [RatingPatchEntry.toPatch, hct, hqp,
      show q.elementsAfter = s₀.userData.elementsAfter _ from hea]
    rfl

end Loop

end RatingCalculatorImpl

end RatingService
