import RatingService.Service.WorkerPool
import Mathlib.Algebra.Order.BigOperators.Group.List

/-!
# Rating packs, from the worker to the client

What the client reads out of a worker's frame, and what a worker's frames are
over any sequence of refreshes and users.

- §1: the client's reading of a pack.
- §2: one frame, there and back.
- §3: positions at the end of the `int` range.
- §4: the frames of a worker's run.
-/

namespace RatingService

open PodCodec ProtocolConstants RatingBufferData

variable {dm : DataModel}

/-! ## §1  Reading a pack -/

def FullUserData.entry (u : FullUserData dm) : RatingEntry dm :=
  ⟨u.id, u.name, u.amountWon⟩

/-- One turn of the decoder's entry loop, whatever the entry held before. -/
theorem initEntries_cons {u : FullUserData dm} (hu : u.name.length ≤ 255)
    {s : BinaryIStream} {bytes tail : BufferT}
    (hs : s.Before (entryBytes u ++ bytes) tail) (old : RatingEntry dm)
    (olds : List (RatingEntry dm)) :
    ∃ s', s'.Before bytes tail ∧
      RatingPackMessage.initEntries (old :: olds) s =
        (RatingPackMessage.initEntries olds s' >>= fun (entries, s) =>
          .ok (u.entry :: entries, s)) := by
  have hbytes : s.Before (Pod.encode u.id ++ (Pod.encode u.amountWon ++
      (UInt8.ofNat u.name.length :: u.name ++ bytes))) tail := by
    refine ⟨hs.le, hs.rest.trans ?_⟩
    simp [entryBytes]
  obtain ⟨s₁, hid, h₁⟩ := BinaryIStream.readPod_encode hbytes
  obtain ⟨s₂, hwon, h₂⟩ := BinaryIStream.readPod_encode h₁
  obtain ⟨s₃, hname, h₃⟩ := BinaryIStream.readBuffer_encode old.name hu h₂
  refine ⟨s₃, h₃, ?_⟩
  rw [RatingPackMessage.initEntries, hid]
  simp only [ok_bind, hwon, hname]
  rfl

theorem initEntries_bytes {users : List (FullUserData dm)}
    (hnames : ∀ u ∈ users, u.name.length ≤ 255)
    {olds : List (RatingEntry dm)} (hlen : olds.length = users.length)
    {s : BinaryIStream} {tail : BufferT}
    (hs : s.Before (entriesBytes users) tail) :
    ∃ s', RatingPackMessage.initEntries olds s =
        .ok (users.map FullUserData.entry, s') ∧ s'.Before [] tail := by
  induction users generalizing olds s with
  | nil =>
      rw [List.eq_nil_of_length_eq_zero hlen]
      exact ⟨s, rfl, hs⟩
  | cons u users ih =>
      obtain ⟨hu, hnames⟩ := List.forall_mem_cons.mp hnames
      cases olds with
      | nil => cases hlen
      | cons old olds =>
          obtain ⟨s₁, h₁, hread⟩ := initEntries_cons hu hs old olds
          obtain ⟨s', hrest, h'⟩ := ih hnames (Nat.succ.inj hlen) h₁
          exact ⟨s', by rw [hread, hrest]; rfl, h'⟩

theorem initEntries_underflow {users : List (FullUserData dm)}
    (hnames : ∀ u ∈ users, u.name.length ≤ 255)
    {olds : List (RatingEntry dm)} (hlen : users.length < olds.length)
    {s : BinaryIStream} (hs : s.Before (entriesBytes users) []) :
    RatingPackMessage.initEntries olds s =
      .error (.thrown .storageUnderflow) := by
  induction users generalizing olds s with
  | nil =>
      cases olds with
      | nil => cases hlen
      | cons old olds =>
          have hread : s.readPod IdT = .error (.thrown .storageUnderflow) := by
            rw [BinaryIStream.readPod, hs.atEnd, sizeSub_of_le le_rfl,
              Nat.sub_self]
            rfl
          rw [RatingPackMessage.initEntries, hread]
          rfl
  | cons u users ih =>
      obtain ⟨hu, hnames⟩ := List.forall_mem_cons.mp hnames
      cases olds with
      | nil => cases hlen
      | cons old olds =>
          obtain ⟨s₁, h₁, hread⟩ := initEntries_cons hu hs old olds
          rw [hread, ih hnames (Nat.lt_of_succ_lt_succ hlen) h₁]
          rfl

theorem length_window (rating : List (FullUserData dm)) (r : ℕ) :
    (window rating r).length =
      min 10 rating.length + (min (r + 11) rating.length - max 10 (r - 10)) := by
  rw [window_eq, List.length_append, topOf, neighbourhood, List.length_take,
    List.length_drop, List.length_take]

/-- **The decoder's count** is the number of entries of the window. -/
theorem ratingEntryCount_eq {rating : List (FullUserData dm)} {r : ℕ}
    (hr : r ≤ rating.length) :
    RatingPackMessage.ratingEntryCount rating.length r =
      (window rating r).length := by
  rw [length_window, RatingPackMessage.ratingEntryCount, topPositions,
    competitionDistance]
  split <;> omega

theorem toInt_ofInt {i : ℕ} (h : i < 2 ^ 31) :
    (Int32.ofInt i).toInt = i := by
  rw [Int32.toInt_ofInt, Int32.size, Int.bmod_eq_of_le] <;> omega

theorem RatingPackMessage.init_header (old : RatingPackMessage dm) (id : IdT)
    {n r : ℕ} (hn : n < 2 ^ 31) (hr : r ≤ n) {s : BinaryIStream}
    {bytes tail : BufferT} (hs : s.Before (headerBytes id n r ++ bytes) tail) :
    ∃ (s' : BinaryIStream) (olds : List (RatingEntry dm)),
      s'.Before bytes tail ∧
      olds.length = (ratingEntryCount n r).toNat ∧
      old.init s = (initEntries olds s' >>= fun (ratings, s) =>
        .ok (⟨id, Int32.ofInt n, Int32.ofInt r, ratings⟩, s)) := by
  have hbytes : s.Before (Pod.encode id ++ (Pod.encode (Int32.ofInt n) ++
      (Pod.encode (Int32.ofInt r) ++ bytes))) tail := by
    refine ⟨hs.le, hs.rest.trans ?_⟩
    simp [headerBytes]
  obtain ⟨s₁, hid, h₁⟩ := BinaryIStream.readPod_encode hbytes
  obtain ⟨s₂, hlength, h₂⟩ := BinaryIStream.readPod_encode h₁
  obtain ⟨s₃, hpos, h₃⟩ := BinaryIStream.readPod_encode h₂
  refine ⟨s₃, old.ratings.take (ratingEntryCount n r).toNat ++
    List.replicate ((ratingEntryCount n r).toNat - old.ratings.length)
      ({} : RatingEntry dm), h₃, ?_, ?_⟩
  · rw [List.length_append, List.length_take, List.length_replicate]
    omega
  · have hn' := toInt_ofInt hn
    have hr' := toInt_ofInt (i := r) (by omega)
    rw [init, hid]
    simp only [ok_bind, hlength, hpos, hn', hr']
    rw [assert_of ⟨by omega, by omega, by omega⟩, ok_bind]

theorem RatingPackMessage.init_bytes (old : RatingPackMessage dm)
    {rating : List (FullUserData dm)} {id : IdT} {r : ℕ}
    (hnames : ∀ u ∈ rating, u.name.length ≤ 255)
    (hlen : rating.length < 2 ^ 31) (hr : r ≤ rating.length)
    {s : BinaryIStream} {tail : BufferT}
    (hs : s.Before (headerBytes id rating.length r ++
      entriesBytes (window rating r)) tail) :
    ∃ s', old.init s = .ok (⟨id, Int32.ofInt rating.length, Int32.ofInt r,
        (window rating r).map FullUserData.entry⟩, s') ∧ s'.Before [] tail := by
  obtain ⟨s₁, olds, h₁, holds, hinit⟩ := old.init_header id hlen hr hs
  have hwindow : ∀ u ∈ window rating r, u.name.length ≤ 255 := by
    intro u hu
    obtain ⟨⟨v, i⟩, hv, rfl⟩ := List.mem_map.mp hu
    exact hnames v (List.fst_mem_of_mem_zipIdx (List.mem_filter.mp hv).1)
  rw [ratingEntryCount_eq hr, Int.toNat_natCast] at holds
  obtain ⟨s', hentries, h'⟩ := initEntries_bytes hwindow holds h₁
  exact ⟨s', by rw [hinit, hentries]; rfl, h'⟩

/-! ## §2  There and back -/

theorem length_packFrame (rating : List (FullUserData dm)) (id : IdT) (r : ℕ)
    (behind : List (FullUserData dm)) :
    (packFrame rating id r behind).length =
      15 + (entriesBytes (topOf rating)).length +
        (entriesBytes behind).length := by
  simp only [packFrame, packPayload, List.length_append, List.length_cons,
    length_sizePrefix, length_headerBytes]
  omega

theorem entriesBytes_eq_nil {users : List (FullUserData dm)}
    (h : (entriesBytes users).length = 0) : users = [] := by
  cases users with
  | nil => rfl
  | cons u users => simp [entriesBytes, entryBytes] at h

theorem length_packFrame_lt {rating : List (FullUserData dm)}
    (hnames : ∀ u ∈ rating, u.name.length ≤ 255) (id : IdT) (r : ℕ) :
    (packFrame rating id r (neighbourhood rating r)).length < 2 ^ 16 := by
  have hentries : ∀ users : List (FullUserData dm), users.Sublist rating →
      (entriesBytes users).length ≤ users.length * 268 := by
    intro users hsub
    rw [entriesBytes, List.length_flatMap]
    refine (List.sum_le_card_nsmul _ 268 fun k hk => ?_).trans_eq ?_
    · obtain ⟨u, hu, rfl⟩ := List.mem_map.mp hk
      exact length_entryBytes_le (hnames u (hsub.subset hu))
    · rw [List.length_map]
      rfl
  have htop := hentries (topOf rating) (List.take_sublist _ _)
  have hbehind := hentries (neighbourhood rating r)
    ((List.drop_sublist _ _).trans (List.take_sublist _ _))
  have htopLength : (topOf rating).length ≤ 10 := List.length_take_le _ _
  have hbehindLength : (neighbourhood rating r).length ≤ 21 := by
    rw [neighbourhood, List.length_drop, List.length_take]
    omega
  rw [length_packFrame]
  omega

/-- **The rating pack, there and back.** A worker's frame is no longer than
its size prefix can say; the client receives its payload, finds the code of a
rating, and reads the user, the rating's length, the position and the entries
of the window, to the last byte of the payload. -/
theorem ratingPack_decodes (rating : List (FullUserData dm))
    (hnames : ∀ u ∈ rating, u.name.length ≤ 255)
    (hlen : rating.length < 2 ^ 31) (id : IdT) (r : ℕ)
    (hr : r ≤ rating.length) (hroom : r + 11 < 2 ^ 31) :
    ∃ b b' frame payload,
      cacheTopRatings rating (create createAdaptedRatingBuffer) = .ok b ∧
      processRatingImpl rating b id r = .ok (frame, b') ∧
      frame = sizePrefix frame.length ++ payload ∧ frame.length < 2 ^ 16 ∧
      ∀ (tail storage : BufferT) (old : RatingPackMessage dm), ∃ s s',
        receive (frame ++ tail) storage = .ok ({ storage := payload }, tail) ∧
        ({ storage := payload } : BinaryIStream).readPod MessageCodeT =
          .ok (ServiceMessageCode.userRating.code, s) ∧
        RatingPackMessage.ratingEntryCount rating.length r =
          (window rating r).length ∧
        old.init s = .ok (⟨id, Int32.ofInt rating.length, Int32.ofInt r,
          (window rating r).map FullUserData.entry⟩, s') ∧
        s'.curPos = s'.storage.length := by
  obtain ⟨b, hb, hcached⟩ := cacheTopRatings_cached adapted_create hnames hlen
  obtain ⟨b', hframe, -⟩ :=
    processRatingImpl_cached hcached hnames hlen id hr hroom
  have hsize := length_packFrame_lt hnames id r
  have hlength : (packFrame rating id r (neighbourhood rating r)).length =
      (packPayload rating id r (neighbourhood rating r)).length + 2 := by
    rw [packFrame, List.length_append, length_sizePrefix, Nat.add_comm]
  refine ⟨b, b', _, packPayload rating id r (neighbourhood rating r), hb,
    hframe, ?_, hsize, fun tail storage old => ?_⟩
  · rw [hlength]
    rfl
  · have hs : ({ storage :=
        (packPayload rating id r (neighbourhood rating r)) } :
          BinaryIStream).Before
        (Pod.encode ServiceMessageCode.userRating.code ++
          (headerBytes id rating.length r ++
            entriesBytes (window rating r))) [] := by
      refine ⟨Nat.zero_le _, ?_⟩
      rw [encode_uint8, window_eq, entriesBytes, List.flatMap_append,
        List.append_nil]
      simp [BinaryIStream.rest, packPayload, entriesBytes]
    obtain ⟨s, hcode, h₁⟩ := BinaryIStream.readPod_encode hs
    obtain ⟨s', hinit, hend⟩ := old.init_bytes hnames hlen hr h₁
    refine ⟨s, s', receive_prefix tail storage (by omega), hcode,
      ratingEntryCount_eq hr, hinit, hend.atEnd⟩

/-- Users with longer and longer names. -/
def fortyPlaces : List (FullUserData .lp64) :=
  (List.range 40).map fun i =>
    { id := Int32.ofNat (100 + i), amountWon := BitVec.ofNat _ (1000 - 10 * i)
      name := List.replicate i 65, serial := i + 1 }

theorem fortyPlaces_names : ∀ u ∈ fortyPlaces, u.name.length ≤ 255 := by
  decide +kernel

/-- The pack of the place in the middle: the top, and ten places on either
side. -/
theorem fortyPlaces_decodes :
    (window fortyPlaces 24).length = 31 ∧
    ∃ b b' frame payload,
      cacheTopRatings fortyPlaces (create createAdaptedRatingBuffer) = .ok b ∧
      processRatingImpl fortyPlaces b 124 24 = .ok (frame, b') ∧
      frame = sizePrefix frame.length ++ payload ∧ frame.length < 2 ^ 16 ∧
      ∀ (tail storage : BufferT) (old : RatingPackMessage .lp64), ∃ s s',
        receive (frame ++ tail) storage = .ok ({ storage := payload }, tail) ∧
        ({ storage := payload } : BinaryIStream).readPod MessageCodeT =
          .ok (ServiceMessageCode.userRating.code, s) ∧
        RatingPackMessage.ratingEntryCount 40 24 =
          (window fortyPlaces 24).length ∧
        old.init s = .ok (⟨124, Int32.ofInt 40, Int32.ofInt 24,
          (window fortyPlaces 24).map FullUserData.entry⟩, s') ∧
        s'.curPos = s'.storage.length :=
  ⟨by decide +kernel, ratingPack_decodes (r := 24) fortyPlaces
    fortyPlaces_names (by decide) 124 (by decide) (by decide)⟩

/-! ## §3  At the end of the `int` range -/

/-- For the last positions an `int` can count, the end of the neighbourhood
overflows, and the frame has no entries behind the top. -/
theorem processRatingImpl_overflow {rating : List (FullUserData dm)}
    {b : RatingBufferData} (hb : Cached rating b)
    (hlen : rating.length < 2 ^ 31) (id : IdT) {r : ℕ}
    (hr : r ≤ rating.length) (hroom : 2 ^ 31 ≤ r + 11) :
    ∃ b', processRatingImpl rating b id r =
        .ok (packFrame rating id r [], b') ∧ Cached rating b' := by
  have hend : wrapInt (wrapInt (r + competitionDistance) + 1) < 0 := by
    rw [competitionDistance, wrapInt, wrapInt]
    rcases Nat.lt_or_ge (r + 10) (2 ^ 31) with hlast | hover
    · rw [show Int.bmod ((r : ℤ) + 10) (2 ^ 32) = 2 ^ 31 - 1 by
        rw [Int.bmod_eq_of_le] <;> omega]
      decide
    · have hwrap : Int.bmod ((r : ℤ) + 10) (2 ^ 32) = r + 10 - 2 ^ 32 := by
        rw [← Int.sub_bmod_right, Int.bmod_eq_of_le] <;> omega
      rw [hwrap, Int.bmod_eq_of_le] <;> omega
  refine processRatingImpl_pack hb hlen id hr ?_
  have hcount : (min (toInt rating.length)
      (wrapInt (wrapInt (r + competitionDistance) + 1)) -
        max topPositions (wrapInt (r - competitionDistance))).toNat = 0 := by
    rw [topPositions]
    omega
  rw [storeEntries, hcount, entriesBytes, List.flatMap_nil,
    BinaryOStream.copyIn, memcpyAt, List.append_nil, List.length_nil,
    Nat.add_zero, List.take_append_drop]
  rfl

/-- As many users as there can be with a position whose neighbourhood still
ends inside the `int` range, and one more. -/
def longRating : List (FullUserData .lp64) :=
  List.replicate (2 ^ 31 - 11) { serial := 1 }

theorem length_longRating : longRating.length = 2 ^ 31 - 11 :=
  List.length_replicate

theorem longRating_names : ∀ u ∈ longRating, u.name.length ≤ 255 := by
  intro u hu
  rw [List.eq_of_mem_replicate hu]
  exact Nat.zero_le _

theorem longRating_pack :
    ∃ b b', cacheTopRatings longRating (create createAdaptedRatingBuffer) =
        .ok b ∧
      processRatingImpl longRating b 1 (2 ^ 31 - 11 : ℕ) =
        .ok (packFrame longRating 1 (2 ^ 31 - 11) [], b') := by
  have hlen : longRating.length < 2 ^ 31 := by
    rw [length_longRating]
    omega
  obtain ⟨b, hb, hcached⟩ :=
    cacheTopRatings_cached adapted_create longRating_names hlen
  obtain ⟨b', hframe, -⟩ := processRatingImpl_overflow hcached hlen 1
    (r := 2 ^ 31 - 11) length_longRating.ge (by omega)
  exact ⟨b, b', hb, hframe⟩

/-- **The pack of the last position is cut short**: the decoder expects the
ten entries above the user and finds none of them. -/
theorem longRating_underflows :
    ∃ b b' frame payload s,
      cacheTopRatings longRating (create createAdaptedRatingBuffer) = .ok b ∧
      processRatingImpl longRating b 1 (2 ^ 31 - 11 : ℕ) = .ok (frame, b') ∧
      frame = sizePrefix frame.length ++ payload ∧
      ({ storage := payload } : BinaryIStream).readPod MessageCodeT =
        .ok (ServiceMessageCode.userRating.code, s) ∧
      ({} : RatingPackMessage .lp64).init s =
        .error (.thrown .storageUnderflow) := by
  obtain ⟨b, b', hb, hframe⟩ := longRating_pack
  have hs : ({ storage := (packPayload longRating 1 (2 ^ 31 - 11) []) } :
      BinaryIStream).Before (Pod.encode ServiceMessageCode.userRating.code ++
        (headerBytes 1 (2 ^ 31 - 11 : ℕ) (2 ^ 31 - 11 : ℕ) ++
          entriesBytes (topOf longRating))) [] := by
    refine ⟨Nat.zero_le _, ?_⟩
    rw [encode_uint8, List.append_nil, ← length_longRating]
    simp [BinaryIStream.rest, packPayload, entriesBytes]
  obtain ⟨s, hcode, h₁⟩ := BinaryIStream.readPod_encode hs
  obtain ⟨s', olds, h', holds, hinit⟩ :=
    ({} : RatingPackMessage .lp64).init_header 1 (by omega) le_rfl h₁
  have hcount : (RatingPackMessage.ratingEntryCount (2 ^ 31 - 11 : ℕ)
      (2 ^ 31 - 11 : ℕ)).toNat = 20 := by
    decide
  have hshort : (topOf longRating).length < olds.length := by
    rw [holds, hcount]
    exact Nat.lt_of_le_of_lt (List.length_take_le _ _) (by omega)
  have hnames : ∀ u ∈ topOf longRating, u.name.length ≤ 255 :=
    fun u hu => longRating_names u (List.mem_of_mem_take hu)
  refine ⟨b, b', _, _, s, hb, hframe, ?_, hcode, ?_⟩
  · rw [packFrame, List.length_append, length_sizePrefix, Nat.add_comm 2]
  · rw [hinit, initEntries_underflow hnames hshort h']
    rfl

/-! ## §4  A worker's run -/

/-- What a worker does with its rating buffer: it caches the top of a new
rating, or it sends a user his pack. -/
inductive WorkerCall (dm : DataModel) where
  | refresh (rating : List (FullUserData dm))
  | process (id : IdT) (r : ℕ)

def runWorker : List (FullUserData dm) → RatingBufferData →
    List (WorkerCall dm) → Outcome (List BufferT)
  | _, _, [] => .ok []
  | _, b, .refresh rating :: calls => do
      let b ← cacheTopRatings rating b
      runWorker rating b calls
  | rating, b, .process id r :: calls => do
      let (frame, b) ← processRatingImpl rating b id r
      let frames ← runWorker rating b calls
      .ok (frame :: frames)

/-- A pack encoded from scratch: a fresh buffer, the header, the first ten
users and the neighbourhood behind them. -/
def encodePack (rating : List (FullUserData dm)) (id : IdT) (r : ℕ) :
    Outcome BufferT := do
  let buffer := storePackHeader createAdaptedRatingBuffer id rating.length r
  let buffer ← (topOf rating ++ neighbourhood rating r).foldlM
    (fun buffer userData =>
      storePackEntry buffer userData.id userData.amountWon userData.name) buffer
  .ok (writeMessage buffer).storage

/-- The frames of a run, each encoded from scratch off the latest rating. -/
def encodePacks : List (FullUserData dm) → List (WorkerCall dm) →
    Outcome (List BufferT)
  | _, [] => .ok []
  | _, .refresh rating :: calls => encodePacks rating calls
  | rating, .process id r :: calls => do
      let frame ← encodePack rating id r
      let frames ← encodePacks rating calls
      .ok (frame :: frames)

/-- Every rating of the run has proper names and fewer than 2^31 users, and
every position is one of the latest rating or the one behind it, with its
neighbourhood in the `int` range. -/
def CallsFit : List (FullUserData dm) → List (WorkerCall dm) → Prop
  | _, [] => True
  | _, .refresh rating :: calls =>
      (∀ u ∈ rating, u.name.length ≤ 255) ∧ rating.length < 2 ^ 31 ∧
        CallsFit rating calls
  | rating, .process _ r :: calls =>
      r ≤ rating.length ∧ r + 11 < 2 ^ 31 ∧ CallsFit rating calls

theorem foldlM_storePackEntry {users : List (FullUserData dm)}
    (hnames : ∀ u ∈ users, u.name.length ≤ 255) {buffer : BinaryOStream}
    (hv : buffer.Valid) :
    users.foldlM (fun buffer userData =>
      storePackEntry buffer userData.id userData.amountWon userData.name)
        buffer = .ok (buffer.copyIn (entriesBytes users)) := by
  induction users generalizing buffer with
  | nil =>
      show Except.ok buffer = Except.ok (buffer.copyIn [])
      rw [BinaryOStream.copyIn, memcpyAt, List.append_nil, List.length_nil,
        Nat.add_zero, List.take_append_drop]
  | cons u users ih =>
      obtain ⟨hu, hnames⟩ := List.forall_mem_cons.mp hnames
      rw [List.foldlM_cons, storePackEntry_eq hv hu, ok_bind,
        ih hnames (BinaryOStream.copyIn_valid hv _),
        BinaryOStream.copyIn_copyIn hv]
      rfl

theorem encodePack_eq {rating : List (FullUserData dm)}
    (hnames : ∀ u ∈ rating, u.name.length ≤ 255) (id : IdT) (r : ℕ) :
    encodePack rating id r =
      .ok (packFrame rating id r (neighbourhood rating r)) := by
  have hv : createAdaptedRatingBuffer.Valid := Nat.le_refl _
  have husers : ∀ u ∈ topOf rating ++ neighbourhood rating r,
      u.name.length ≤ 255 := by
    intro u hu
    rcases List.mem_append.mp hu with hu | hu
    · exact hnames u (List.mem_of_mem_take hu)
    · exact hnames u (List.mem_of_mem_take (List.mem_of_mem_drop hu))
  have hpayload : (createAdaptedRatingBuffer.copyIn
      (headerBytes id rating.length r ++
        entriesBytes (topOf rating ++ neighbourhood rating r))).storage =
      [0, 0] ++ packPayload rating id r (neighbourhood rating r) := by
    have hstart : createAdaptedRatingBuffer.storage =
        [0, 0] ++ [ServiceMessageCode.userRating.code] := rfl
    rw [BinaryOStream.copyIn_end rfl, hstart, entriesBytes,
      List.flatMap_append]
    simp [packPayload, entriesBytes]
  rw [encodePack, storePackHeader_eq hv]
  simp only [foldlM_storePackEntry husers (BinaryOStream.copyIn_valid hv _),
    ok_bind, BinaryOStream.copyIn_copyIn hv]
  rw [writeMessage_storage, hpayload, List.length_append, Nat.add_comm]
  rfl

/-- **The cached buffer is invisible**, from any cached buffer on. -/
theorem runWorker_eq {rating : List (FullUserData dm)} {b : RatingBufferData}
    (hb : Cached rating b) (hnames : ∀ u ∈ rating, u.name.length ≤ 255)
    (hlen : rating.length < 2 ^ 31) {calls : List (WorkerCall dm)}
    (hcalls : CallsFit rating calls) :
    ∃ frames, runWorker rating b calls = .ok frames ∧
      encodePacks rating calls = .ok frames ∧
      ∀ frame ∈ frames, ∃ payload,
        frame = sizePrefix frame.length ++ payload ∧
          frame.length < 2 ^ 16 := by
  induction calls generalizing rating b with
  | nil => exact ⟨[], rfl, rfl, fun _ h => absurd h List.not_mem_nil⟩
  | cons call calls ih =>
      cases call with
      | refresh rating' =>
          obtain ⟨hnames', hlen', hcalls⟩ := hcalls
          obtain ⟨b', hb', hcached⟩ :=
            cacheTopRatings_cached hb.adapted hnames' hlen'
          obtain ⟨frames, hrun, hscratch, hframes⟩ :=
            ih hcached hnames' hlen' hcalls
          refine ⟨frames, ?_, hscratch, hframes⟩
          rw [runWorker, hb', ok_bind, hrun]
      | process id r =>
          obtain ⟨hr, hroom, hcalls⟩ := hcalls
          obtain ⟨b', hframe, hcached⟩ :=
            processRatingImpl_cached hb hnames hlen id hr hroom
          obtain ⟨frames, hrun, hscratch, hframes⟩ :=
            ih hcached hnames hlen hcalls
          have hsize := length_packFrame_lt hnames id r
          refine ⟨_ :: frames, ?_, ?_, List.forall_mem_cons.mpr
            ⟨⟨packPayload rating id r (neighbourhood rating r), ?_, hsize⟩,
              hframes⟩⟩
          · rw [runWorker, hframe]
            simp only [ok_bind, hrun]
          · rw [encodePacks, encodePack_eq hnames]
            simp only [ok_bind, hscratch]
          · rw [packFrame, List.length_append, length_sizePrefix,
              Nat.add_comm 2]

/-- **The cached top of the rating is invisible**: whatever a worker does, its
frames are those encoded from scratch off the latest rating, their size
prefixes are their lengths, and no assertion fails. -/
theorem cached_frames (rating : List (FullUserData dm))
    (calls : List (WorkerCall dm))
    (hcalls : CallsFit [] (.refresh rating :: calls)) :
    ∃ frames, runWorker [] (create createAdaptedRatingBuffer)
        (.refresh rating :: calls) = .ok frames ∧
      encodePacks [] (.refresh rating :: calls) = .ok frames ∧
      ∀ frame ∈ frames, ∃ payload,
        frame = sizePrefix frame.length ++ payload ∧
          frame.length < 2 ^ 16 := by
  obtain ⟨hnames, hlen, hcalls⟩ := hcalls
  obtain ⟨b, hb, hcached⟩ := cacheTopRatings_cached adapted_create hnames hlen
  obtain ⟨frames, hrun, hscratch, hframes⟩ :=
    runWorker_eq hcached hnames hlen hcalls
  exact ⟨frames, by rw [runWorker, hb, ok_bind, hrun], hscratch, hframes⟩

/-- A refresh for forty users, and one for the first of them: places at the top,
in the middle, and behind the last. -/
theorem twoRefreshes_frames :
    ∃ frames, runWorker [] (create createAdaptedRatingBuffer)
        [.refresh fortyPlaces, .process 124 24, .process 139 39,
          .refresh (fortyPlaces.take 25), .process 107 7, .process 3 25] =
        .ok frames ∧
      encodePacks [] [.refresh fortyPlaces, .process 124 24, .process 139 39,
        .refresh (fortyPlaces.take 25), .process 107 7, .process 3 25] =
          .ok frames ∧
      ∀ frame ∈ frames, ∃ payload,
        frame = sizePrefix frame.length ++ payload ∧
          frame.length < 2 ^ 16 := by
  refine cached_frames fortyPlaces _ ⟨fortyPlaces_names, by decide, by decide,
    by decide, by decide, by decide, ?_, by decide, by decide, by decide,
    by decide, by decide, trivial⟩
  exact fun u hu => fortyPlaces_names u (List.mem_of_mem_take hu)

/-- At the last position the frame is not the one encoded from scratch. -/
theorem longRating_frames :
    ∃ frame frame', runWorker [] (create createAdaptedRatingBuffer)
        [.refresh longRating, .process 1 (2 ^ 31 - 11)] = .ok [frame] ∧
      encodePacks [] [.refresh longRating, .process 1 (2 ^ 31 - 11)] =
        .ok [frame'] ∧ frame ≠ frame' := by
  obtain ⟨b, b', hb, hframe⟩ := longRating_pack
  refine ⟨packFrame longRating 1 (2 ^ 31 - 11) [],
    packFrame longRating 1 (2 ^ 31 - 11)
      (neighbourhood longRating (2 ^ 31 - 11)), ?_, ?_, ?_⟩
  · rw [runWorker, hb, ok_bind, runWorker, hframe]
    rfl
  · rw [encodePacks, encodePacks, encodePack_eq longRating_names]
    rfl
  · intro heq
    -- the frame from scratch is longer
    have hsize := congrArg List.length heq
    rw [length_packFrame, length_packFrame] at hsize
    have hnone := entriesBytes_eq_nil (Nat.add_left_cancel hsize).symm
    have hlen : (neighbourhood longRating (2 ^ 31 - 11)).length = 10 := by
      rw [neighbourhood, List.length_drop, List.length_take, length_longRating]
      omega
    rw [hnone] at hlen
    cases hlen

end RatingService
