import RatingService.Ipc.Transport
import RatingService.Service.CoreData
import Mathlib.Algebra.Order.Group.Abs
import Mathlib.Algebra.Order.Group.Int

/-!
# The workers' rating frames

The part of `service/worker_pool.cpp` that writes rating packs. A worker keeps
the header and the top positions in one buffer, and for every user it appends
the user's neighbourhood, writes the header in front of it, sends the buffer
and cuts it back.

The core data does not change while a worker reads it, so `m_coreData.rating`
is the list of the objects its pointers lead to. An `int` is an integer that
wraps after every operation.

- §1: the code.
- §2: the window of a user.
- §3: what is written.
- §4: the cached buffer.
-/

namespace RatingService

open PodCodec ProtocolConstants

variable {dm : DataModel}

/-! ## §1  The code -/

structure RatingBufferData where
  buffer : BinaryOStream
  base : ℕ
  topRatingsEnd : ℕ := 0

def RatingBufferData.create (b : BinaryOStream) : RatingBufferData :=
  { buffer := b, base := b.getPos }

/-- `m_coreData.rating[i]`. -/
def ratingAt (rating : List (FullUserData dm)) (i : ℤ) :
    Outcome (FullUserData dm) :=
  if i < 0 then .error .outOfBounds
  else match rating[i.toNat]? with
    | some userData => .ok userData
    | none => .error .outOfBounds

/-- The loops over `storePackEntry`, with their bounds. -/
def storeEntries (rating : List (FullUserData dm)) (buffer : BinaryOStream)
    (first last : ℤ) : Outcome BinaryOStream :=
  (List.range (last - first).toNat).foldlM (fun buffer (k : ℕ) => do
    let userData ← ratingAt rating (first + k)
    storePackEntry buffer userData.id userData.amountWon userData.name) buffer

def cacheTopRatings (rating : List (FullUserData dm))
    (bufferData : RatingBufferData) : Outcome RatingBufferData := do
  let buffer := (bufferData.buffer.rewind bufferData.base).2
  let buffer := storePackHeader buffer invalidId 0 0
  let maxTopRating := min topPositions (toInt rating.length)
  let buffer ← storeEntries rating buffer 0 maxTopRating
  .ok { bufferData with buffer := buffer, topRatingsEnd := buffer.getPos }

/-- `processRatingImpl`, with the frame it sends. The position is compared
with the rating's size as a `size_t`. -/
def processRatingImpl (coreRating : List (FullUserData dm))
    (bufferData : RatingBufferData) (id : IdT) (rating : ℤ) :
    Outcome (BufferT × RatingBufferData) := do
  assert (rating % 2 ^ 64 ≤ coreRating.length)
  assert (bufferData.buffer.getPos = bufferData.topRatingsEnd)
  let ratingRangeBegin :=
    max topPositions (wrapInt (rating - competitionDistance))
  let ratingRangeEnd := min (toInt coreRating.length)
    (wrapInt (wrapInt (rating + competitionDistance) + 1))
  let buffer ← storeEntries coreRating bufferData.buffer ratingRangeBegin
    ratingRangeEnd
  let buffer := (buffer.setPos bufferData.base).2
  let buffer := storePackHeader buffer id (toInt coreRating.length) rating
  let buffer := writeMessage buffer
  .ok (buffer.storage,
    { bufferData with
      buffer := (buffer.rewind bufferData.topRatingsEnd).2 })

/-! ## §2  The window -/

def topOf (rating : List (FullUserData dm)) : List (FullUserData dm) :=
  rating.take 10

def neighbourhood (rating : List (FullUserData dm)) (r : ℕ) :
    List (FullUserData dm) :=
  (rating.take (r + 11)).drop (max 10 (r - 10))

/-- The entries of the positions below ten or at most ten away from `r`. -/
def window (rating : List (FullUserData dm)) (r : ℕ) :
    List (FullUserData dm) :=
  (rating.zipIdx.filter fun p =>
    p.2 < 10 ∨ |(p.2 : ℤ) - r| ≤ competitionDistance).map Prod.fst

theorem filter_zipIdx_all {α : Type} {p : ℕ → Prop} [DecidablePred p]
    (l : List α) (k : ℕ) (h : ∀ i, k ≤ i → i < k + l.length → p i) :
    ((l.zipIdx k).filter fun x => p x.2).map Prod.fst = l := by
  rw [List.filter_eq_self.mpr, List.zipIdx_map_fst]
  intro x hx
  have hbounds := List.mem_zipIdx hx
  exact decide_eq_true (h x.2 hbounds.1 hbounds.2.1)

theorem filter_zipIdx_none {α : Type} {p : ℕ → Prop} [DecidablePred p]
    (l : List α) (k : ℕ) (h : ∀ i, k ≤ i → i < k + l.length → ¬ p i) :
    (l.zipIdx k).filter (fun x => p x.2) = [] := by
  rw [List.filter_eq_nil_iff]
  intro x hx
  have hbounds := List.mem_zipIdx hx
  simpa using h x.2 hbounds.1 hbounds.2.1

/-- **The window** is the top and the neighbourhood behind it. -/
theorem window_eq (rating : List (FullUserData dm)) (r : ℕ) :
    window rating r = topOf rating ++ neighbourhood rating r := by
  have hsplit : rating = rating.take 10 ++
      (rating.take (max 10 (r - 10))).drop 10 ++ neighbourhood rating r ++
      rating.drop (r + 11) := by
    have hlow : rating.take 10 = (rating.take (max 10 (r - 10))).take 10 := by
      rw [List.take_take]
      congr 1
      omega
    have hhigh : rating.take (max 10 (r - 10)) =
        (rating.take (r + 11)).take (max 10 (r - 10)) := by
      rw [List.take_take]
      congr 1
      omega
    rw [hlow, List.take_append_drop, hhigh, neighbourhood,
      List.take_append_drop, List.take_append_drop]
  let p : ℕ → Prop := fun i => i < 10 ∨ |(i : ℤ) - r| ≤ 10
  have hp : ∀ i, p i ↔ i < 10 ∨ r ≤ i + 10 ∧ i ≤ r + 10 := by
    intro i
    refine or_congr_right ?_
    rw [abs_le]
    omega
  have hlen : (neighbourhood rating r).length =
      min (r + 11) rating.length - max 10 (r - 10) := by
    rw [neighbourhood, List.length_drop, List.length_take]
  show ((rating.zipIdx).filter fun x => p x.2).map Prod.fst = _
  conv_lhs => rw [hsplit]
  rw [List.zipIdx_append, List.zipIdx_append, List.zipIdx_append,
    List.filter_append, List.filter_append, List.filter_append,
    List.map_append, List.map_append, List.map_append,
    filter_zipIdx_all (rating.take 10), filter_zipIdx_none (List.drop 10 _),
    filter_zipIdx_all (neighbourhood rating r),
    filter_zipIdx_none (rating.drop (r + 11))]
  · simp [topOf]
  all_goals
    intro i hlow hhigh
    simp only [hp, List.length_append, List.length_take, List.length_drop,
      hlen] at hlow hhigh ⊢
    omega

/-! ## §3  What is written -/

def entryBytes (userData : FullUserData dm) : BufferT :=
  Pod.encode userData.id ++ Pod.encode userData.amountWon ++
    UInt8.ofNat userData.name.length :: userData.name

def headerBytes (id : IdT) (ratingLength ratingPos : ℤ) : BufferT :=
  Pod.encode id ++ Pod.encode (Int32.ofInt ratingLength) ++
    Pod.encode (Int32.ofInt ratingPos)

@[simp] theorem length_headerBytes (id : IdT) (ratingLength ratingPos : ℤ) :
    (headerBytes id ratingLength ratingPos).length = 12 := by
  simp only [headerBytes, List.length_append, Pod.length_encode]
  rfl

theorem length_entryBytes_le {userData : FullUserData dm}
    (hname : userData.name.length ≤ 255) :
    (entryBytes userData).length ≤ 268 := by
  have hid : (Pod.encode userData.id).length = 4 := Pod.length_encode _
  have hwon : (Pod.encode userData.amountWon).length = dm.sizeofLong :=
    Pod.length_encode _
  have hlong := dm.sizeofLong_le
  simp only [entryBytes, List.length_append, List.length_cons, hid, hwon]
  omega

def entriesBytes (users : List (FullUserData dm)) : BufferT :=
  users.flatMap entryBytes

theorem storePackHeader_eq {buffer : BinaryOStream} (hv : buffer.Valid)
    (id : IdT) (ratingLength ratingPos : ℤ) :
    storePackHeader buffer id ratingLength ratingPos =
      buffer.copyIn (headerBytes id ratingLength ratingPos) := by
  have hv₁ := BinaryOStream.copyIn_valid hv (Pod.encode id)
  have hv₂ := BinaryOStream.copyIn_valid hv₁
    (Pod.encode (Int32.ofInt ratingLength))
  rw [storePackHeader, BinaryOStream.writePod_eq hv,
    BinaryOStream.writePod_eq hv₁, BinaryOStream.writePod_eq hv₂,
    BinaryOStream.copyIn_copyIn hv₁, BinaryOStream.copyIn_copyIn hv,
    headerBytes, List.append_assoc]

theorem storePackEntry_eq {buffer : BinaryOStream} (hv : buffer.Valid)
    {userData : FullUserData dm} (hname : userData.name.length ≤ 255) :
    storePackEntry buffer userData.id userData.amountWon userData.name =
      .ok (buffer.copyIn (entryBytes userData)) := by
  have hv₁ := BinaryOStream.copyIn_valid hv (Pod.encode userData.id)
  have hv₂ := BinaryOStream.copyIn_valid hv₁ (Pod.encode userData.amountWon)
  rw [storePackEntry, assert_of hname, ok_bind, BinaryOStream.writePod_eq hv,
    BinaryOStream.writePod_eq hv₁, BinaryOStream.writeBuffer_eq hv₂ hname,
    BinaryOStream.copyIn_copyIn hv₁, BinaryOStream.copyIn_copyIn hv,
    entryBytes, List.append_assoc]

theorem ratingAt_eq {rating : List (FullUserData dm)} {i : ℕ}
    (h : i < rating.length) : ratingAt rating i = .ok rating[i] := by
  rw [ratingAt, if_neg (by omega), Int.toNat_natCast,
    List.getElem?_eq_getElem h]

/-- **The entry loop** writes the entries between its bounds. -/
theorem storeEntries_eq {rating : List (FullUserData dm)}
    (hnames : ∀ u ∈ rating, u.name.length ≤ 255) {buffer : BinaryOStream}
    (hv : buffer.Valid) (first : ℕ) {last : ℕ}
    (hlast : last ≤ rating.length) :
    storeEntries rating buffer first last =
      .ok (buffer.copyIn (entriesBytes ((rating.take last).drop first))) := by
  have hcount : ((last : ℤ) - first).toNat = last - first := by omega
  rw [storeEntries, hcount, List.drop_take]
  have hbound : last - first = 0 ∨ first + (last - first) ≤ rating.length := by
    omega
  generalize last - first = count at hbound
  induction count with
  | zero =>
      rw [List.take_zero]
      show Except.ok buffer = Except.ok (buffer.copyIn [])
      rw [BinaryOStream.copyIn, memcpyAt, List.append_nil, List.length_nil,
        Nat.add_zero, List.take_append_drop]
  | succ count ih =>
      have hlt : first + count < rating.length := by omega
      have hmem := hnames _ (List.getElem_mem hlt)
      have hv' := BinaryOStream.copyIn_valid hv
        (entriesBytes ((rating.drop first).take count))
      have hcast : (first : ℤ) + (count : ℕ) = (first + count : ℕ) := by omega
      have hend : (rating.drop first).take (count + 1) =
          (rating.drop first).take count ++ [rating[first + count]] := by
        rw [List.take_add_one, List.getElem?_drop,
          List.getElem?_eq_getElem hlt]
        rfl
      rw [List.range_succ, List.foldlM_append, ih (by omega), ok_bind,
        List.foldlM_cons, hcast, ratingAt_eq hlt, ok_bind,
        storePackEntry_eq hv' hmem, ok_bind, BinaryOStream.copyIn_copyIn hv,
        hend, entriesBytes, entriesBytes, List.flatMap_append,
        List.flatMap_singleton]
      rfl

/-! ## §4  The cached buffer -/

/-- What a frame carries behind its size, with the entries `behind` the
top. -/
def packPayload (rating : List (FullUserData dm)) (id : IdT) (r : ℕ)
    (behind : List (FullUserData dm)) : BufferT :=
  ServiceMessageCode.userRating.code :: (headerBytes id rating.length r ++
    entriesBytes (topOf rating) ++ entriesBytes behind)

def packFrame (rating : List (FullUserData dm)) (id : IdT) (r : ℕ)
    (behind : List (FullUserData dm)) : BufferT :=
  sizePrefix ((packPayload rating id r behind).length + 2) ++
    packPayload rating id r behind

/-- A size prefix, the message code, a header and the top of the rating. -/
def cachedBytes (rating : List (FullUserData dm)) (size header : BufferT) :
    BufferT :=
  size ++ ServiceMessageCode.userRating.code ::
    (header ++ entriesBytes (topOf rating))

theorem length_cachedBytes (rating : List (FullUserData dm))
    {size header : BufferT} (hsize : size.length = 2)
    (hheader : header.length = 12) :
    (cachedBytes rating size header).length =
      15 + (entriesBytes (topOf rating)).length := by
  rw [cachedBytes, List.length_append, List.length_cons, List.length_append,
    hsize, hheader]
  omega

theorem cachedBytes_append (rating : List (FullUserData dm)) (size : BufferT)
    (id : IdT) (r : ℕ) (behind : List (FullUserData dm)) :
    cachedBytes rating size (headerBytes id rating.length r) ++
        entriesBytes behind =
      size ++ packPayload rating id r behind := by
  simp [cachedBytes, packPayload]

namespace RatingBufferData

/-- The buffer begins with room for the size prefix and the message code. -/
structure Adapted (b : RatingBufferData) : Prop where
  base : b.base = 3
  start : ∃ size tail : BufferT, size.length = 2 ∧ b.buffer.storage =
    size ++ ServiceMessageCode.userRating.code :: tail

/-- The buffer holds the top of the rating behind the room for a header. -/
structure Cached (rating : List (FullUserData dm)) (b : RatingBufferData) :
    Prop where
  base : b.base = 3
  bytes : ∃ size header : BufferT, size.length = 2 ∧ header.length = 12 ∧
    b.buffer.storage = cachedBytes rating size header
  atEnd : b.buffer.curPos = b.buffer.storage.length
  topRatingsEnd : b.topRatingsEnd = b.buffer.storage.length

theorem Cached.adapted {rating : List (FullUserData dm)} {b : RatingBufferData}
    (h : Cached rating b) : b.Adapted := by
  obtain ⟨size, header, hsize, -, hbytes⟩ := h.bytes
  exact ⟨h.base, size, _, hsize, hbytes⟩

theorem adapted_create : (create createAdaptedRatingBuffer).Adapted :=
  ⟨rfl, [0, 0], [], rfl, rfl⟩

end RatingBufferData

open RatingBufferData

variable {rating : List (FullUserData dm)} {b : RatingBufferData}

/-- **Caching** leaves the top of the rating in the buffer, whatever was in it
behind the message code. -/
theorem cacheTopRatings_cached (hb : b.Adapted)
    (hnames : ∀ u ∈ rating, u.name.length ≤ 255)
    (hlen : rating.length < 2 ^ 31) :
    ∃ b', cacheTopRatings rating b = .ok b' ∧ Cached rating b' := by
  obtain ⟨hbase, size, tail, hsize, hstorage⟩ := hb
  let start : BufferT := size ++ [ServiceMessageCode.userRating.code]
  have hthree : start.length = 3 := by
    rw [List.length_append, hsize]
    rfl
  have hsplit : b.buffer.storage = start ++ tail := by
    rw [hstorage, List.append_assoc]
    rfl
  have hle : 3 ≤ b.buffer.storage.length := by
    rw [hsplit, List.length_append, hthree]
    omega
  have hrewind : (b.buffer.rewind b.base).2 = ⟨3, start⟩ := by
    rw [BinaryOStream.rewind, hbase, if_neg (Nat.not_lt.mpr hle),
      resize_of_le hle, hsplit, List.take_left' hthree]
  have hv : (⟨3, start⟩ : BinaryOStream).Valid := hthree.ge
  have hmax : min topPositions (toInt rating.length) =
      (min 10 rating.length : ℕ) := by
    rw [toInt_of_lt hlen, topPositions]
    omega
  have htop : (rating.take (min 10 rating.length)).drop 0 = topOf rating := by
    rw [List.drop_zero, topOf, ← List.take_eq_take_min]
  obtain ⟨cached, hcached⟩ : ∃ cached : BufferT,
      cached = headerBytes invalidId 0 0 ++ entriesBytes (topOf rating) :=
    ⟨_, rfl⟩
  have hend : 3 + cached.length = (start ++ cached).length := by
    rw [List.length_append, hthree]
  refine ⟨{ b with
    buffer := ⟨3 + cached.length, start ++ cached⟩
    topRatingsEnd := 3 + cached.length }, ?_, hbase, ⟨size,
    headerBytes invalidId 0 0, hsize, length_headerBytes .., ?_⟩, hend, hend⟩
  · have hcopy : (⟨3, start⟩ : BinaryOStream).copyIn cached =
        ⟨3 + cached.length, start ++ cached⟩ :=
      BinaryOStream.copyIn_end hthree.symm cached
    have hloop : storeEntries rating
        ((⟨3, start⟩ : BinaryOStream).copyIn (headerBytes invalidId 0 0)) 0
        (min 10 rating.length : ℕ) =
          .ok ⟨3 + cached.length, start ++ cached⟩ := by
      rw [← hcopy, hcached, ← BinaryOStream.copyIn_copyIn hv, ← htop]
      exact storeEntries_eq hnames (BinaryOStream.copyIn_valid hv _) 0
        (Nat.min_le_right 10 _)
    rw [cacheTopRatings, hrewind, storePackHeader_eq hv, hmax, hloop]
    rfl
  · show start ++ cached = _
    rw [hcached, List.append_assoc]
    rfl

theorem rangeBegin_eq {r : ℕ} (hr : r < 2 ^ 31) :
    max topPositions (wrapInt (r - competitionDistance)) =
      (max 10 (r - 10) : ℕ) := by
  have hwrap : wrapInt (r - 10) = r - 10 :=
    wrapInt_of_lt (by omega) (by omega)
  rw [topPositions, competitionDistance, hwrap]
  omega

theorem rangeEnd_eq {n r : ℕ} (hn : n < 2 ^ 31) (hr : r + 11 < 2 ^ 31) :
    min (toInt n) (wrapInt (wrapInt (r + competitionDistance) + 1)) =
      (min n (r + 11) : ℕ) := by
  have hwrap : wrapInt (r + 10) = r + 10 :=
    wrapInt_of_lt (by omega) (by omega)
  have hwrap' : wrapInt (r + 10 + 1) = r + 10 + 1 :=
    wrapInt_of_lt (by omega) (by omega)
  rw [toInt_of_lt hn, competitionDistance, hwrap, hwrap']
  omega

theorem storePackHeader_middle {size header tail : BufferT} {pos : ℕ}
    (hsize : size.length = 2) (hheader : header.length = 12) (id : IdT)
    (ratingLength ratingPos : ℤ) :
    storePackHeader ((⟨pos, cachedBytes rating size header ++ tail⟩ :
        BinaryOStream).setPos 3).2 id ratingLength ratingPos =
      ⟨15, cachedBytes rating size (headerBytes id ratingLength ratingPos) ++
        tail⟩ := by
  have hthree : (size ++ [ServiceMessageCode.userRating.code]).length = 3 := by
    rw [List.length_append, hsize]
    rfl
  have hsplit : ∀ header' : BufferT, cachedBytes rating size header' ++ tail =
      (size ++ [ServiceMessageCode.userRating.code]) ++ header' ++
        (entriesBytes (topOf rating) ++ tail) := by
    intro header'
    simp [cachedBytes]
  have hle : 3 ≤ (cachedBytes rating size header ++ tail).length := by
    rw [List.length_append, length_cachedBytes rating hsize hheader]
    omega
  have hmiddle := memcpyAt_middle (size ++ [ServiceMessageCode.userRating.code])
    (entriesBytes (topOf rating) ++ tail)
    ((length_headerBytes id ratingLength ratingPos).trans hheader.symm)
  rw [hthree, ← hsplit, ← hsplit] at hmiddle
  have hv : (⟨3, cachedBytes rating size header ++ tail⟩ :
      BinaryOStream).Valid := hle
  rw [BinaryOStream.setPos, if_neg (Nat.not_lt.mpr hle)]
  show storePackHeader ⟨3, cachedBytes rating size header ++ tail⟩ _ _ _ = _
  rw [storePackHeader_eq hv, BinaryOStream.copyIn, length_headerBytes]
  exact congrArg (BinaryOStream.mk 15) hmiddle

theorem writeMessage_frame (rating : List (FullUserData dm)) {size : BufferT}
    (hsize : size.length = 2) (id : IdT) (r : ℕ)
    (behind : List (FullUserData dm)) (pos : ℕ) :
    (writeMessage ⟨pos, cachedBytes rating size
        (headerBytes id rating.length r) ++ entriesBytes behind⟩).storage =
      packFrame rating id r behind := by
  rw [writeMessage_storage, cachedBytes_append, List.drop_left' hsize,
    List.length_append, hsize, Nat.add_comm 2]
  rfl

theorem rewind_frame {buffer : BinaryOStream} {id : IdT} {r : ℕ}
    {behind : List (FullUserData dm)}
    (hbuffer : buffer.storage = packFrame rating id r behind) :
    (buffer.rewind (15 + (entriesBytes (topOf rating)).length)).2 =
      ⟨15 + (entriesBytes (topOf rating)).length, cachedBytes rating
        (sizePrefix ((packPayload rating id r behind).length + 2))
        (headerBytes id rating.length r)⟩ := by
  rw [packFrame, ← cachedBytes_append] at hbuffer
  have hlen := length_cachedBytes rating
    (length_sizePrefix ((packPayload rating id r behind).length + 2))
    (length_headerBytes id rating.length r)
  have hle : 15 + (entriesBytes (topOf rating)).length ≤
      buffer.storage.length := by
    rw [hbuffer, List.length_append, hlen]
    exact Nat.le_add_right _ _
  rw [BinaryOStream.rewind, if_neg (Nat.not_lt.mpr hle), resize_of_le hle,
    hbuffer, List.take_left' hlen]

/-- **A frame** out of the cached buffer, with the entries the loop puts
behind the top. The buffer is the same again afterwards but for the size and
the header. -/
theorem processRatingImpl_pack (hb : Cached rating b)
    (hlen : rating.length < 2 ^ 31) (id : IdT) {r : ℕ}
    (hr : r ≤ rating.length) {behind : List (FullUserData dm)}
    (hloop : storeEntries rating b.buffer
      (max topPositions (wrapInt (r - competitionDistance)))
      (min (toInt rating.length)
        (wrapInt (wrapInt (r + competitionDistance) + 1))) =
      .ok (b.buffer.copyIn (entriesBytes behind))) :
    ∃ b', processRatingImpl rating b id r =
        .ok (packFrame rating id r behind, b') ∧ Cached rating b' := by
  obtain ⟨hbase, ⟨size, header, hsize, hheader, hstorage⟩, hpos, htop⟩ := hb
  have hsize64 : (r : ℤ) % 2 ^ 64 ≤ rating.length := by omega
  have hlong : b.buffer.copyIn (entriesBytes behind) =
      ⟨b.buffer.curPos + (entriesBytes behind).length,
        cachedBytes rating size header ++ entriesBytes behind⟩ := by
    rw [BinaryOStream.copyIn_end hpos, hstorage]
  rw [hlong] at hloop
  have hend : b.topRatingsEnd = 15 + (entriesBytes (topOf rating)).length := by
    rw [htop, hstorage, length_cachedBytes rating hsize hheader]
  refine ⟨{ b with buffer := ⟨b.topRatingsEnd, cachedBytes rating
      (sizePrefix ((packPayload rating id r behind).length + 2))
      (headerBytes id rating.length r)⟩ }, ?_, hbase, ⟨_, _,
        length_sizePrefix _, length_headerBytes .., rfl⟩, ?_, ?_⟩
  · have hgetPos : b.buffer.getPos = b.topRatingsEnd := hpos.trans htop.symm
    have htoInt := toInt_of_lt hlen
    have hframe := writeMessage_frame rating hsize id r behind 15
    rw [processRatingImpl]
    simp only [assert_of hsize64, assert_of hgetPos, ok_bind, hloop]
    simp only [hbase, htoInt, storePackHeader_middle hsize hheader, hframe,
      hend, rewind_frame hframe]
  · rw [hend, length_cachedBytes rating (length_sizePrefix _)
      (length_headerBytes ..)]
  · rw [hend, length_cachedBytes rating (length_sizePrefix _)
      (length_headerBytes ..)]

/-- **A user's frame**: behind the top comes his neighbourhood. -/
theorem processRatingImpl_cached (hb : Cached rating b)
    (hnames : ∀ u ∈ rating, u.name.length ≤ 255)
    (hlen : rating.length < 2 ^ 31) (id : IdT) {r : ℕ}
    (hr : r ≤ rating.length) (hroom : r + 11 < 2 ^ 31) :
    ∃ b', processRatingImpl rating b id r =
        .ok (packFrame rating id r (neighbourhood rating r), b') ∧
      Cached rating b' := by
  have hneighbours : (rating.take (min rating.length (r + 11))).drop
      (max 10 (r - 10)) = neighbourhood rating r := by
    rw [Nat.min_comm, neighbourhood, ← List.take_eq_take_min]
  refine processRatingImpl_pack hb hlen id hr ?_
  rw [rangeBegin_eq (by omega), rangeEnd_eq hlen hroom, ← hneighbours]
  exact storeEntries_eq hnames hb.atEnd.le (max 10 (r - 10))
    (Nat.min_le_left rating.length (r + 11))

end RatingService
