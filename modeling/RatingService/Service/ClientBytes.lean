import RatingService.Ipc.ClientStream

/-!
# Client bytes

What any finite stream of bytes does to a session. `Overseer::run` has one
handler for transport errors, after which it begins a new session, and handlers
for everything else, after which the service terminates; a broken frame is not
reported as a transport error.

- §1: the handlers.
- §2: one frame.
- §3: conforming streams.
- §4: exactly which streams the service survives.
-/

namespace RatingService

open PodCodec ProtocolConstants

variable {dm : DataModel}

/-! ## §1  Handlers -/

structure SystemStopSignals where
  unrecoverableError : Bool := false
  badFlag : Bool := false

namespace SystemStopSignals

def signalError (signals : SystemStopSignals) (unrecoverable : Bool) :
    SystemStopSignals :=
  { unrecoverableError := signals.unrecoverableError || unrecoverable
    badFlag := true }

/-- The handlers of `Overseer::run`: one for the transport error, one for what
is derived from `std::exception`, one for the rest. -/
def handle (signals : SystemStopSignals) : Failure → SystemStopSignals
  | .thrown .transportErrorRecoverable => signals.signalError false
  | _ => signals.signalError true

theorem handle_eq_false {e : Failure} :
    (({} : SystemStopSignals).handle e).unrecoverableError = false ↔
      e = .thrown .transportErrorRecoverable := by
  constructor
  · intro h
    by_contra hne
    rw [handle] at h
    · cases h
    · exact hne
  · rintro rfl
    rfl

end SystemStopSignals

/-! ## §2  One frame -/

def frameSize (stream : BufferT) : ℕ :=
  (Pod.decode (stream.take 2) : MessageSizeT).toNat

/-- The stream ends before its first frame does. -/
def Cut (stream : BufferT) : Prop :=
  2 ≤ stream.length → stream.length < frameSize stream

theorem frameSize_prefix {payload : BufferT} (tail : BufferT)
    (hsize : payload.length + 2 < 2 ^ 16) :
    frameSize (sizePrefix (payload.length + 2) ++ payload ++ tail) =
      payload.length + 2 := by
  rw [frameSize, List.append_assoc, List.take_left' (length_sizePrefix _),
    sizePrefix, Pod.decode_encode, UInt16.toNat_ofNat']
  omega

theorem Cut.receive {stream : BufferT} (h : Cut stream) (storage : BufferT) :
    receive stream storage = .error (.thrown .transportErrorRecoverable) := by
  rw [RatingService.receive]
  split
  · rfl
  · next hlen =>
    have hcut := h (Nat.not_lt.mp hlen)
    rw [frameSize] at hcut
    dsimp only
    rw [if_neg (by omega), if_pos (by rw [List.length_drop]; omega)]

theorem receive_error {stream storage : BufferT} {e : Failure}
    (h : receive stream storage = .error e) :
    Cut stream ∨ e ≠ .thrown .transportErrorRecoverable := by
  rw [receive] at h
  split at h
  · next hlen => exact .inl fun hlen' => absurd hlen (Nat.not_lt.mpr hlen')
  · next hlen =>
    dsimp only at h
    split at h
    · cases h
      exact .inr nofun
    · split at h
      · next hsize hroom =>
        refine .inl fun _ => ?_
        rw [List.length_drop] at hroom
        rw [frameSize]
        omega
      · cases h

/-- **What is received** is the payload behind its size. -/
theorem receive_of_ok {stream storage rest : BufferT} {data : BinaryIStream}
    (h : receive stream storage = .ok (data, rest)) :
    ∃ payload : BufferT, data = { storage := payload } ∧
      stream = sizePrefix (payload.length + 2) ++ payload ++ rest ∧
      payload.length + 2 < 2 ^ 16 := by
  rw [receive] at h
  split at h
  · cases h
  · next hlen =>
    dsimp only at h
    split at h
    · cases h
    · next hsize =>
      split at h
      · cases h
      · next hroom =>
        cases h
        generalize hms : (Pod.decode (stream.take 2) : MessageSizeT) = ms
          at hsize hroom ⊢
        have hlt := ms.toNat_lt
        have hlength : ((stream.drop 2).take (ms.toNat - 2)).length =
            ms.toNat - 2 := by
          rw [List.length_take]
          omega
        have hprefix : sizePrefix (ms.toNat - 2 + 2) = stream.take 2 := by
          have htwo : (stream.take 2).length = 2 := by
            rw [List.length_take]
            omega
          rw [sizePrefix, Nat.sub_add_cancel (Nat.not_lt.mp hsize),
            UInt16.ofNat_toNat, ← hms, CompletePod.encode_decode _ htwo]
        refine ⟨(stream.drop 2).take (ms.toNat - 2), ?_, ?_, by omega⟩
        · rw [memcpyAt_zero ((length_resize _ _).trans hlength.symm)]
        · rw [hlength, hprefix, List.append_assoc, List.take_append_drop,
            List.take_append_drop]

theorem GenericIdMsg.init_error {msg : GenericIdMsg} {data : BinaryIStream}
    {e : Failure} (h : msg.init data = .error e) :
    e = .thrown .storageUnderflow := by
  rw [init] at h
  cases hid : data.readPod IdT with
  | error e' =>
      rw [hid] at h
      cases h
      exact BinaryIStream.readPod_error hid
  | ok p =>
      rw [hid] at h
      cases h

theorem GenericIdNameMsg.init_error {msg : GenericIdNameMsg}
    {data : BinaryIStream} {e : Failure} (h : msg.init data = .error e) :
    e = .thrown .storageUnderflow := by
  rw [init] at h
  cases hid : msg.toGenericIdMsg.init data with
  | error e' =>
      rw [hid] at h
      cases h
      exact GenericIdMsg.init_error hid
  | ok p =>
      rw [hid, ok_bind] at h
      dsimp only at h
      cases hname : p.2.readBuffer msg.userName with
      | error e' =>
          rw [hname] at h
          cases h
          exact BinaryIStream.readBuffer_error hname
      | ok q =>
          rw [hname] at h
          cases h

theorem UserDealWonMsg.init_error {msg : UserDealWonMsg dm}
    {data : BinaryIStream} {e : Failure} (h : msg.init data = .error e) :
    e = .thrown .storageUnderflow := by
  rw [init] at h
  cases hid : msg.toGenericIdMsg.init data with
  | error e' =>
      rw [hid] at h
      cases h
      exact GenericIdMsg.init_error hid
  | ok p =>
      rw [hid, ok_bind] at h
      dsimp only at h
      cases hwon : p.2.readPod (MonetaryT dm) with
      | error e' =>
          rw [hwon] at h
          cases h
          exact BinaryIStream.readPod_error hwon
      | ok q =>
          rw [hwon] at h
          cases h

theorem GenericIdMsg.init_of_ok {msg new : GenericIdMsg}
    {data data' : BinaryIStream} (hle : data.curPos ≤ data.storage.length)
    (h : msg.init data = .ok (new, data')) :
    data.rest = Pod.encode new.userId ++ data'.rest ∧
      data'.curPos ≤ data'.storage.length := by
  obtain ⟨p, hid, h⟩ := bind_eq_ok.mp h
  cases h
  exact BinaryIStream.readPod_of_ok hle hid

theorem GenericIdNameMsg.init_of_ok {msg new : GenericIdNameMsg}
    {data data' : BinaryIStream} (hle : data.curPos ≤ data.storage.length)
    (h : msg.init data = .ok (new, data')) :
    data.rest = Pod.encode new.userId ++
        UInt8.ofNat new.userName.length :: new.userName ++ data'.rest ∧
      new.userName.length ≤ 255 := by
  obtain ⟨p, hid, h⟩ := bind_eq_ok.mp h
  obtain ⟨hrest, hle'⟩ := GenericIdMsg.init_of_ok hle hid
  obtain ⟨q, hname, h⟩ := bind_eq_ok.mp h
  cases h
  obtain ⟨hrest', hlen⟩ := BinaryIStream.readBuffer_of_ok hle' hname
  refine ⟨?_, hlen⟩
  rw [hrest, hrest', List.append_assoc]

theorem UserDealWonMsg.init_of_ok {msg new : UserDealWonMsg dm}
    {data data' : BinaryIStream} (hle : data.curPos ≤ data.storage.length)
    (h : msg.init data = .ok (new, data')) :
    data.rest = Pod.encode new.userId ++ Pod.encode new.winnings ++
      data'.rest := by
  obtain ⟨p, hid, h⟩ := bind_eq_ok.mp h
  obtain ⟨hrest, hle'⟩ := GenericIdMsg.init_of_ok hle hid
  obtain ⟨q, hwon, h⟩ := bind_eq_ok.mp h
  cases h
  obtain ⟨hrest', -⟩ := BinaryIStream.readPod_of_ok hle' hwon
  rw [hrest, hrest', List.append_assoc]

/-- **What is decoded** stands at the front of the fields. -/
theorem MessageBattery.init_of_ok {b b' : MessageBattery dm}
    {data : BinaryIStream} {messageCode : MessageCodeT}
    {code : ClientMessageCode} (hle : data.curPos ≤ data.storage.length)
    (h : b.init data messageCode = .ok (code, b')) :
    ∃ (msg : ClientMessage dm) (extra : BufferT), msg.code = code ∧
      messageCode = code.code ∧ msg.NameFits ∧
      data.rest = msg.bytes ++ extra ∧ b'.message code = some msg := by
  rw [init] at h
  split at h
  · next hcode =>
    obtain ⟨⟨msg, data'⟩, hinit, h⟩ := bind_eq_ok.mp h
    cases h
    obtain ⟨hrest, hname⟩ := GenericIdNameMsg.init_of_ok hle hinit
    exact ⟨.registered msg, data'.rest, rfl, hcode, hname, hrest, rfl⟩
  split at h
  · next hcode =>
    obtain ⟨⟨msg, data'⟩, hinit, h⟩ := bind_eq_ok.mp h
    cases h
    obtain ⟨hrest, hname⟩ := GenericIdNameMsg.init_of_ok hle hinit
    exact ⟨.renamed msg, data'.rest, rfl, hcode, hname, hrest, rfl⟩
  split at h
  · next hcode =>
    obtain ⟨⟨msg, data'⟩, hinit, h⟩ := bind_eq_ok.mp h
    cases h
    obtain ⟨hrest, -⟩ := GenericIdMsg.init_of_ok hle hinit
    exact ⟨.connected msg, data'.rest, rfl, hcode, trivial, hrest, rfl⟩
  split at h
  · next hcode =>
    obtain ⟨⟨msg, data'⟩, hinit, h⟩ := bind_eq_ok.mp h
    cases h
    obtain ⟨hrest, -⟩ := GenericIdMsg.init_of_ok hle hinit
    exact ⟨.disconnected msg, data'.rest, rfl, hcode, trivial, hrest, rfl⟩
  split at h
  · next hcode =>
    obtain ⟨⟨msg, data'⟩, hinit, h⟩ := bind_eq_ok.mp h
    cases h
    have hrest := UserDealWonMsg.init_of_ok hle hinit
    exact ⟨.dealWon msg, data'.rest, rfl, hcode, trivial, hrest, rfl⟩
  · cases h

theorem MessageBattery.init_error {b : MessageBattery dm}
    {data : BinaryIStream} {messageCode : MessageCodeT} {e : Failure}
    (h : b.init data messageCode = .error e) :
    e ≠ .thrown .transportErrorRecoverable := by
  have hbind : ∀ {α β : Type} {x : Outcome α} {f : α → β},
      (do let a ← x; Except.ok (f a)) = Except.error e → x = .error e := by
    intro α β x f hx
    cases x with
    | ok a => cases hx
    | error e' =>
        cases hx
        rfl
  rintro rfl
  rw [init] at h
  split at h
  · cases GenericIdNameMsg.init_error (hbind h)
  split at h
  · cases GenericIdNameMsg.init_error (hbind h)
  split at h
  · cases GenericIdMsg.init_error (hbind h)
  split at h
  · cases GenericIdMsg.init_error (hbind h)
  split at h
  · cases UserDealWonMsg.init_error (hbind h)
  · cases h

/-! ## §3  Conforming streams -/

/-- A payload may be longer than its message. -/
def paddedFrame (msg : ClientMessage dm) (extra : BufferT) : BufferT :=
  sizePrefix ((msg.payload ++ extra).length + 2) ++ (msg.payload ++ extra)

/-- Every frame that is complete has a size of 2 at least and begins with a
complete message of a known kind. -/
inductive Conforming (dm : DataModel) : BufferT → Prop
  | cut {stream : BufferT} (h : Cut stream) : Conforming dm stream
  | frame (msg : ClientMessage dm) (extra : BufferT) {stream : BufferT}
      (hname : msg.NameFits) (hsize : (msg.payload ++ extra).length + 2 < 2 ^ 16)
      (h : Conforming dm stream) :
      Conforming dm (paddedFrame msg extra ++ stream)

namespace MessageBuilder

variable {builder builder' : MessageBuilder dm} {stream rest : BufferT}

theorem build_receive {payload : BufferT}
    (h : receive stream builder.bufferStorage =
      .ok ({ storage := payload }, rest)) :
    builder.build stream =
      (({ storage := payload } : BinaryIStream).readPod MessageCodeT >>=
        fun p => builder.battery.init p.2 p.1 >>= fun q =>
          .ok (q.1, { battery := q.2, bufferStorage := payload }, rest)) := by
  rw [build, h]
  rfl

theorem build_paddedFrame (builder : MessageBuilder dm)
    {msg : ClientMessage dm} (extra tail : BufferT) (hname : msg.NameFits)
    (hsize : (msg.payload ++ extra).length + 2 < 2 ^ 16) :
    ∃ builder', builder.build (paddedFrame msg extra ++ tail) =
      .ok (msg.code, builder', tail) := by
  have hdata : ({ storage := msg.payload ++ extra } : BinaryIStream).Before
      (Pod.encode msg.code.code ++ msg.bytes) extra := by
    refine ⟨Nat.zero_le _, ?_⟩
    rw [encode_uint8]
    rfl
  obtain ⟨data', hcode, hfields⟩ := BinaryIStream.readPod_encode hdata
  obtain ⟨b', hinit, -⟩ := builder.battery.init_bytes hname hfields
  refine ⟨{ battery := b', bufferStorage := msg.payload ++ extra }, ?_⟩
  have hreceive := receive_prefix tail builder.bufferStorage hsize
  rw [paddedFrame, build_receive hreceive, hcode]
  simp only [ok_bind, hinit]

/-- **A message built** comes from the payload behind its size. -/
theorem build_of_ok {code : ClientMessageCode}
    (h : builder.build stream = .ok (code, builder', rest)) :
    ∃ (msg : ClientMessage dm) (extra : BufferT), msg.NameFits ∧
      (msg.payload ++ extra).length + 2 < 2 ^ 16 ∧
      stream = paddedFrame msg extra ++ rest ∧ code = msg.code ∧
      builder'.battery.message code = some msg := by
  cases hreceive : receive stream builder.bufferStorage with
  | error e =>
      rw [build, hreceive] at h
      cases h
  | ok p =>
      obtain ⟨data, rest'⟩ := p
      obtain ⟨payload, rfl, hstream, hsize⟩ := receive_of_ok hreceive
      rw [build_receive hreceive] at h
      obtain ⟨⟨messageCode, data'⟩, hcode, h⟩ := bind_eq_ok.mp h
      obtain ⟨⟨code', battery⟩, hinit, h⟩ := bind_eq_ok.mp h
      cases h
      obtain ⟨hrest, hle⟩ := BinaryIStream.readPod_of_ok (Nat.zero_le _) hcode
      obtain ⟨msg, extra, rfl, rfl, hname, hfields, hmsg⟩ :=
        MessageBattery.init_of_ok hle hinit
      have hpayload : payload = msg.payload ++ extra := by
        refine hrest.trans ?_
        rw [hfields, encode_uint8]
        rfl
      subst hpayload
      exact ⟨msg, extra, hname, hsize, hstream, rfl, hmsg⟩

theorem cut_of_build
    (h : builder.build stream = .error (.thrown .transportErrorRecoverable)) :
    Cut stream := by
  cases hreceive : receive stream builder.bufferStorage with
  | error e =>
      rw [build, hreceive] at h
      cases h
      exact (receive_error hreceive).resolve_right fun hne => hne rfl
  | ok p =>
      obtain ⟨data, rest'⟩ := p
      obtain ⟨payload, rfl, -, -⟩ := receive_of_ok hreceive
      rw [build_receive hreceive] at h
      cases hcode : ({ storage := payload } : BinaryIStream).readPod
          MessageCodeT with
      | error e =>
          rw [hcode] at h
          cases h
          cases BinaryIStream.readPod_error hcode
      | ok p =>
          rw [hcode, ok_bind] at h
          cases hinit : builder.battery.init p.2 p.1 with
          | error e =>
              rw [hinit] at h
              cases h
              exact absurd rfl (MessageBattery.init_error hinit)
          | ok q =>
              rw [hinit] at h
              cases h

theorem build_cut (h : Cut stream) :
    builder.build stream = .error (.thrown .transportErrorRecoverable) := by
  rw [build, h.receive]
  rfl

end MessageBuilder

/-! ## §4  Sessions -/

/-- What the builder and the stream are after some messages were built. -/
inductive Reaches (builder : MessageBuilder dm) (stream : BufferT) :
    MessageBuilder dm → BufferT → Prop
  | start : Reaches builder stream builder stream
  | build {builder₁ builder₂ : MessageBuilder dm} {stream₁ stream₂ : BufferT}
      {code : ClientMessageCode} (h : Reaches builder stream builder₁ stream₁)
      (hbuild : builder₁.build stream₁ = .ok (code, builder₂, stream₂)) :
      Reaches builder stream builder₂ stream₂

/-- A step of the loop takes a message from the payload behind a size of 2 at
least, or ends the session so that the next one can begin. -/
structure Handled (builder : MessageBuilder dm) (stream : BufferT) : Prop where
  decodes : ∀ (code : ClientMessageCode) (builder' : MessageBuilder dm)
    (rest : BufferT), builder.build stream = .ok (code, builder', rest) →
      ∃ (msg : ClientMessage dm) (extra : BufferT),
        stream = paddedFrame msg extra ++ rest ∧
        (msg.payload ++ extra).length + 2 < 2 ^ 16 ∧
        builder'.battery.message code = some msg
  recovers : ∀ e, builder.build stream = .error e →
    (({} : SystemStopSignals).handle e).unrecoverableError = false
  /-- `ms - sizeof(ms)` does not wrap -/
  noWrap : 2 ≤ stream.length → 2 ≤ frameSize stream

theorem Conforming.handled {stream : BufferT} (h : Conforming dm stream)
    (builder : MessageBuilder dm) : Handled builder stream := by
  refine ⟨?_, ?_, ?_⟩
  · intro code builder' rest hbuild
    obtain ⟨msg, extra, -, hsize, hstream, -, hmsg⟩ :=
      MessageBuilder.build_of_ok hbuild
    exact ⟨msg, extra, hstream, hsize, hmsg⟩
  · intro e hbuild
    rw [SystemStopSignals.handle_eq_false]
    cases h with
    | cut hcut =>
        rw [MessageBuilder.build_cut hcut] at hbuild
        cases hbuild
        rfl
    | frame msg extra hname hsize =>
        obtain ⟨builder', hok⟩ :=
          builder.build_paddedFrame extra _ hname hsize
        rw [hok] at hbuild
        cases hbuild
  · intro hlen
    cases h with
    | cut hcut => exact (hlen.trans_lt (hcut hlen)).le
    | frame msg extra hname hsize =>
        rw [paddedFrame, frameSize_prefix _ hsize]
        exact Nat.le_add_left _ _

theorem Conforming.build {stream rest : BufferT} {code : ClientMessageCode}
    {builder builder' : MessageBuilder dm} (h : Conforming dm stream)
    (hbuild : builder.build stream = .ok (code, builder', rest)) :
    Conforming dm rest := by
  cases h with
  | cut hcut =>
      rw [MessageBuilder.build_cut hcut] at hbuild
      cases hbuild
  | frame msg extra hname hsize hrest =>
      obtain ⟨builder₁, hok⟩ := builder.build_paddedFrame extra _ hname hsize
      rw [hok] at hbuild
      cases hbuild
      exact hrest

theorem Conforming.reaches {builder builder' : MessageBuilder dm}
    {stream stream' : BufferT} (h : Conforming dm stream)
    (hreaches : Reaches builder stream builder' stream') :
    Conforming dm stream' := by
  induction hreaches with
  | start => exact h
  | build _ hbuild ih => exact ih.build hbuild

theorem Reaches.trans {builder builder₁ builder₂ : MessageBuilder dm}
    {stream stream₁ stream₂ : BufferT}
    (h : Reaches builder stream builder₁ stream₁)
    (h' : Reaches builder₁ stream₁ builder₂ stream₂) :
    Reaches builder stream builder₂ stream₂ := by
  induction h' with
  | start => exact h
  | build _ hbuild ih => exact ih.build hbuild

/-- By induction on the length of the stream: a frame is not empty. -/
theorem conforming_of_handled (size : ℕ) (builder : MessageBuilder dm)
    (stream : BufferT) (hsize : stream.length ≤ size)
    (h : ∀ builder' stream', Reaches builder stream builder' stream' →
      Handled builder' stream') : Conforming dm stream := by
  induction size generalizing builder stream with
  | zero => exact .cut fun hlen => by omega
  | succ size ih =>
      have hstart := h builder stream .start
      cases hbuild : builder.build stream with
      | error e =>
          have he := SystemStopSignals.handle_eq_false.mp
            (hstart.recovers e hbuild)
          exact .cut (MessageBuilder.cut_of_build (he ▸ hbuild))
      | ok p =>
          obtain ⟨code, builder', rest⟩ := p
          obtain ⟨msg, extra, hname, hlen, rfl, -, -⟩ :=
            MessageBuilder.build_of_ok hbuild
          refine .frame msg extra hname hlen (ih builder' rest ?_ ?_)
          · rw [paddedFrame, List.length_append, List.length_append,
              length_sizePrefix] at hsize
            omega
          · intro builder'' stream'' hreaches
            exact h _ _ ((Reaches.start.build hbuild).trans hreaches)

/-- What a client may send, handshake and all: every step of the session behind
an accepted handshake is handled. -/
def Survives (dm : DataModel) (bytes : BufferT) : Prop :=
  ∀ (stream stream' : BufferT) (builder' : MessageBuilder dm),
    (launch bytes).1 = .ok stream →
      Reaches ({} : MessageBuilder dm) stream builder' stream' →
        Handled builder' stream'

/-- **Exactly which clients cannot terminate the service**: those whose bytes
behind the handshake conform, up to a cut. -/
theorem survives_iff {bytes stream : BufferT}
    (hlaunch : (launch bytes).1 = .ok stream) :
    Survives dm bytes ↔ Conforming dm stream := by
  constructor
  · intro h
    exact conforming_of_handled _ {} stream (le_refl _)
      fun builder' stream' => h stream stream' builder' hlaunch
  · intro h stream₁ stream' builder' hlaunch₁ hreaches
    rw [hlaunch] at hlaunch₁
    cases hlaunch₁
    exact (h.reaches hreaches).handled builder'

/-- A message with a byte too many, and one that is cut. -/
theorem padded_survives : Survives .lp64 (clientLaunch ++
    (paddedFrame (.connected ⟨7⟩ : ClientMessage .lp64) [9] ++ [7, 0, 4])) := by
  refine (survives_iff (congrArg Prod.fst (launch_handshake _))).mpr ?_
  exact .frame _ _ trivial (by decide) (.cut fun _ => by decide)

theorem not_survives {stream : BufferT} {e : Failure}
    (hbuild : ({} : MessageBuilder dm).build stream = .error e)
    (he : (({} : SystemStopSignals).handle e).unrecoverableError = true) :
    ¬ Survives dm (clientLaunch ++ stream) := by
  intro h
  have hstart := h stream stream {} (congrArg Prod.fst (launch_handshake _))
    .start
  rw [hstart.recovers e hbuild] at he
  cases he

/-- A size below 2, no code, a code nobody knows, no id: each terminates the
service. -/
theorem malformed_terminates :
    ¬ Survives .lp64 (clientLaunch ++ [0, 0]) ∧
      ¬ Survives .lp64 (clientLaunch ++ [2, 0]) ∧
      ¬ Survives .lp64 (clientLaunch ++ [3, 0, 9]) ∧
      ¬ Survives .lp64 (clientLaunch ++ [3, 0, 4]) :=
  ⟨not_survives rfl rfl, not_survives rfl rfl, not_survives rfl rfl,
    not_survives rfl rfl⟩

end RatingService
