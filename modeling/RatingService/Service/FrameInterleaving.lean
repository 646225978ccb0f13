import RatingService.Framework.Runs
import RatingService.Ipc.Transport
import Mathlib.Data.Fintype.Basic
import Mathlib.Data.List.Nodup
import Mathlib.Logic.Function.Basic

/-!
# Frames of concurrent workers

`ServerSideTransport::blockedWriteMessage`, called by any number of workers.
The `lock_guard` it constructs has no name: it is a temporary, and the end of
that statement destroys it, so the spinlock is free again when `writeMessage`
sends. `asio::write` sends a frame as partial sends, each of them atomic.

- §1: the machine.
- §2: streams of whole frames.
- §3: the steps that keep them whole.
- §4: the frames stay whole where no worker comes in between the early end of
  another one's guard and his return, and a run where one does.
-/

namespace RatingService

open Runs

/-! ## §1  The machine -/

/-- Where a worker is in `blockedWriteMessage`. -/
inductive WriterPc where
  | outside
  | guarded
  | sending (sent : ℕ)
deriving DecidableEq

structure Writer where
  /-- the number of calls that have returned -/
  done : ℕ := 0
  pc : WriterPc := .outside
deriving DecidableEq

/-- The bytes on the wire carry, as a ghost, the worker and the call they
belong to. -/
structure WireState (ι : Type) where
  /-- `Spinlock::locked` -/
  locked : Bool := false
  writers : ι → Writer := fun _ => {}
  stream : List ((ι × ℕ) × UInt8) := []

inductive WireStep (ι : Type) where
  | construct (w : ι)
  | destroy (w : ι)
  | send (w : ι) (size : ℕ)
  | leave (w : ι)

variable {ι : Type}

/-- The frame of a worker's call: what `writeMessage` passes to the socket. -/
def frame (calls : ι → List BinaryOStream) (call : ι × ℕ) : BufferT :=
  ((calls call.1)[call.2]?).elim [] fun buffer => (writeMessage buffer).storage

namespace WireState

variable (calls : ι → List BinaryOStream)

def setWriter [DecidableEq ι] (s : WireState ι) (w : ι) (writer : Writer) :
    WireState ι :=
  { s with writers := Function.update s.writers w writer }

/-- The call a worker is in, or makes next. -/
def call (s : WireState ι) (w : ι) : ι × ℕ := (w, (s.writers w).done)

def step [DecidableEq ι] (s : WireState ι) : WireStep ι → Option (WireState ι)
  | .construct w =>
      if (s.writers w).pc = .outside ∧ s.locked = false ∧
          (s.writers w).done < (calls w).length then
        some { s.setWriter w { s.writers w with pc := .guarded } with
          locked := true }
      else none
  | .destroy w =>
      if (s.writers w).pc = .guarded then
        some { s.setWriter w { s.writers w with pc := .sending 0 } with
          locked := false }
      else none
  | .send w size =>
      match (s.writers w).pc with
      | .sending sent =>
          if 0 < size ∧ sent + size ≤ (frame calls (s.call w)).length then
            some { s.setWriter w
                { s.writers w with pc := .sending (sent + size) } with
              stream := s.stream ++
                (((frame calls (s.call w)).drop sent).take size).map
                  (s.call w, ·) }
          else none
      | _ => none
  | .leave w =>
      if (s.writers w).pc = .sending (frame calls (s.call w)).length then
        some (s.setWriter w { done := (s.writers w).done + 1 })
      else none

/-- The workers and the spinlock between them, from the start of a session. -/
def machine [DecidableEq ι] : Machine (WireState ι) (WireStep ι) where
  init s := s = {}
  step := step calls

/-! ## §2  Whole frames -/

def PartlySent (s : WireState ι) (w : ι) : Prop :=
  ∃ sent, (s.writers w).pc = .sending sent ∧ 0 < sent ∧
    sent < (frame calls (s.call w)).length

/-- All of a call's frame is on the wire. -/
def Written (s : WireState ι) (call : ι × ℕ) : Prop :=
  call.2 < (s.writers call.1).done ∨ call = s.call call.1 ∧
    (s.writers call.1).pc = .sending (frame calls call).length

def tagged (call : ι × ℕ) : List ((ι × ℕ) × UInt8) :=
  (frame calls call).map (call, ·)

def sentPart (s : WireState ι) (w : ι) : List ((ι × ℕ) × UInt8) :=
  match (s.writers w).pc with
  | .sending sent => (tagged calls (s.call w)).take sent
  | _ => []

/-- **Whole frames**: the wire carries every written frame once and whole, one
after the other, and behind them the first part of at most one more. -/
def Whole (s : WireState ι) : Prop :=
  ∃ (frames : List (ι × ℕ)) (current : Option ι),
    frames.Nodup ∧ (∀ call, call ∈ frames ↔ s.Written calls call) ∧
    (∀ w, s.PartlySent calls w ↔ current = some w) ∧
    s.stream = frames.flatMap (tagged calls) ++
      current.elim [] (s.sentPart calls)

/-- No byte of one frame lies between two bytes of another. -/
def Unmixed (s : WireState ι) : Prop :=
  ∀ (i j k : ℕ) (call : ι × ℕ), i ≤ j → j ≤ k →
    (s.stream.map Prod.fst)[i]? = some call →
    (s.stream.map Prod.fst)[k]? = some call →
    (s.stream.map Prod.fst)[j]? = some call

variable {calls : ι → List BinaryOStream} {s s' : WireState ι} {w : ι}

/-- A step that changes one worker, to `writer`. -/
structure Moved (s s' : WireState ι) (w : ι) (writer : Writer) : Prop where
  self : s'.writers w = writer
  others : ∀ w', w' ≠ w → s'.writers w' = s.writers w'

theorem moved_setWriter [DecidableEq ι] (s : WireState ι) (w : ι)
    (writer : Writer) (locked : Bool) (stream : List ((ι × ℕ) × UInt8)) :
    s.Moved { s.setWriter w writer with locked := locked, stream := stream }
      w writer :=
  ⟨Function.update_self _ _ _, fun _ hne => Function.update_of_ne hne _ _⟩

/-- A call that is made has at least the size prefix to send. -/
theorem two_le_frame {call : ι × ℕ} (h : call.2 < (calls call.1).length) :
    2 ≤ (frame calls call).length := by
  rw [frame, List.getElem?_eq_getElem h]
  exact two_le_writeMessage _

theorem partlySent_congr (h : s'.writers w = s.writers w) :
    s'.PartlySent calls w ↔ s.PartlySent calls w := by
  rw [PartlySent, PartlySent, call, call, h]

theorem written_congr {call : ι × ℕ}
    (h : s'.writers call.1 = s.writers call.1) :
    s'.Written calls call ↔ s.Written calls call := by
  rw [Written, Written, WireState.call, WireState.call, h]

theorem sentPart_congr (h : s'.writers w = s.writers w) :
    s'.sentPart calls w = s.sentPart calls w := by
  rw [sentPart, sentPart, call, call, h]

theorem Whole.quiet (h : s.Whole calls) (hstream : s'.stream = s.stream)
    {writer : Writer} (hmoved : s.Moved s' w writer)
    (hpart : ¬ s.PartlySent calls w) (hpart' : ¬ s'.PartlySent calls w)
    (hwritten : ∀ i, s'.Written calls (w, i) ↔ s.Written calls (w, i)) :
    s'.Whole calls := by
  obtain ⟨frames, current, hnodup, hframes, hcurrent, hs⟩ := h
  have hne : ∀ w', current = some w' → w' ≠ w := by
    rintro w' hw' rfl
    exact hpart ((hcurrent w').mpr hw')
  refine ⟨frames, current, hnodup, ?_, ?_, ?_⟩
  · rintro ⟨w', i⟩
    rw [hframes]
    by_cases hw : w' = w
    · subst hw
      exact (hwritten i).symm
    · exact (written_congr (hmoved.others w' hw)).symm
  · intro w'
    rw [← hcurrent]
    by_cases hw : w' = w
    · subst hw
      exact iff_of_false hpart' hpart
    · exact partlySent_congr (hmoved.others w' hw)
  · rw [hstream, hs]
    cases current with
    | none => rfl
    | some w' =>
        rw [Option.elim_some, Option.elim_some,
          sentPart_congr (hmoved.others w' (hne w' rfl))]

section Send

variable {sent size : ℕ} (hpc : (s.writers w).pc = .sending sent)
  (hmoved : s.Moved s' w { s.writers w with pc := .sending (sent + size) })

include hmoved in
theorem call_send : s'.call w = s.call w := by
  rw [call, call, hmoved.self]

include hpc in
theorem not_written_call (hlt : sent < (frame calls (s.call w)).length) :
    ¬ s.Written calls (s.call w) := by
  rintro (hdone | ⟨-, hall⟩)
  · exact Nat.lt_irrefl _ hdone
  · have hsent := hpc.symm.trans hall
    injection hsent with hsent
    omega

include hpc hmoved in
/-- A send completes the sender's frame or none. -/
theorem written_send (hlt : sent < (frame calls (s.call w)).length)
    (call : ι × ℕ) :
    s'.Written calls call ↔ s.Written calls call ∨
      call = s.call w ∧ sent + size = (frame calls (s.call w)).length := by
  obtain ⟨w', i⟩ := call
  by_cases hw : w' = w
  · subst hw
    have hnot : ¬ ((w', i) = s.call w' ∧
        (s.writers w').pc = .sending (frame calls (w', i)).length) := by
      rintro ⟨hi, hall⟩
      exact not_written_call hpc hlt (Or.inr ⟨rfl, hi ▸ hall⟩)
    rw [Written, Written, call_send hmoved, hmoved.self, or_iff_left hnot]
    refine or_congr_right (and_congr_right fun hi => ?_)
    rw [hi, WriterPc.sending.injEq]
  · rw [written_congr (hmoved.others w' hw)]
    refine (or_iff_left ?_).symm
    rintro ⟨hcall, -⟩
    exact hw (congrArg Prod.fst hcall)

include hmoved in
/-- After a send made alone, the sender's frame is the only one that can be
on the wire in part. -/
theorem partlySent_send (hsize : 0 < size)
    (halone : ∀ w', w' ≠ w → ¬ s.PartlySent calls w') (w' : ι) :
    s'.PartlySent calls w' ↔
      w' = w ∧ sent + size < (frame calls (s.call w)).length := by
  by_cases hw : w' = w
  · subst hw
    rw [PartlySent, call_send hmoved, hmoved.self]
    constructor
    · rintro ⟨n, hn, -, hlt⟩
      injection hn with hn
      exact ⟨rfl, hn ▸ hlt⟩
    · rintro ⟨-, hlt⟩
      exact ⟨_, rfl, by omega, hlt⟩
  · rw [partlySent_congr (hmoved.others w' hw)]
    exact iff_of_false (halone w' hw) fun h => hw h.1

include hpc in
/-- A worker that sends alone finds the wire ending with what it has sent of
its own frame. -/
theorem sentPart_alone {current : Option ι}
    (hcurrent : ∀ w, s.PartlySent calls w ↔ current = some w)
    (halone : ∀ w', w' ≠ w → ¬ s.PartlySent calls w')
    (hlt : sent < (frame calls (s.call w)).length) :
    current.elim [] (s.sentPart calls) =
      (tagged calls (s.call w)).take sent := by
  cases current with
  | none =>
      have hzero : sent = 0 := by
        by_contra hpos
        have hpart := (hcurrent w).mp ⟨sent, hpc, by omega, hlt⟩
        cases hpart
      rw [hzero, List.take_zero, Option.elim_none]
  | some w' =>
      have hw' : w' = w := by
        by_contra hne
        exact halone w' hne ((hcurrent w').mpr rfl)
      rw [Option.elim_some, hw', sentPart, hpc]

include hpc hmoved in
/-- **A send** by a worker while no other worker's frame is sent in part. -/
theorem Whole.send (h : s.Whole calls)
    (halone : ∀ w', w' ≠ w → ¬ s.PartlySent calls w') (hsize : 0 < size)
    (hle : sent + size ≤ (frame calls (s.call w)).length)
    (hstream : s'.stream = s.stream ++
      (((frame calls (s.call w)).drop sent).take size).map (s.call w, ·)) :
    s'.Whole calls := by
  obtain ⟨frames, current, hnodup, hframes, hcurrent, hs⟩ := h
  have hlt : sent < (frame calls (s.call w)).length := by omega
  have hwritten := written_send hpc hmoved hlt
  have hpart := partlySent_send hmoved hsize halone
  have hs' : s'.stream = frames.flatMap (tagged calls) ++
      (tagged calls (s.call w)).take (sent + size) := by
    rw [hstream, hs, sentPart_alone hpc hcurrent halone hlt,
      List.append_assoc, List.take_add, tagged, List.map_take, List.map_drop]
  rcases Nat.lt_or_eq_of_le hle with hmore | hall
  · -- some of the frame is still to be sent
    refine ⟨frames, some w, hnodup, ?_, ?_, ?_⟩
    · intro call
      rw [hframes, hwritten]
      exact (or_iff_left fun h => Nat.ne_of_lt hmore h.2).symm
    · intro w'
      rw [hpart, and_iff_left hmore, Option.some.injEq, eq_comm]
    · rw [hs', Option.elim_some, sentPart, hmoved.self, call_send hmoved]
  · -- the frame is complete
    refine ⟨frames ++ [s.call w], none, ?_, ?_, ?_, ?_⟩
    · rw [← List.concat_eq_append]
      refine List.Nodup.concat (fun hmem => ?_) hnodup
      exact not_written_call hpc hlt ((hframes _).mp hmem)
    · intro call
      rw [List.mem_append, List.mem_singleton, hframes, hwritten,
        and_iff_left hall]
    · intro w'
      rw [hpart]
      refine iff_of_false (fun h => Nat.ne_of_lt h.2 hall) ?_
      rintro ⟨⟩
    · have hlen : (tagged calls (s.call w)).length = sent + size := by
        rw [tagged, List.length_map, hall]
      rw [hs', List.flatMap_append, List.flatMap_singleton, ← hlen,
        List.take_length, Option.elim_none, List.append_nil]

end Send

/-- Blocks of one key each, no key twice: what lies between two places of one
block is in that block. -/
theorem contiguous_blocks {κ : Type} (size : κ → ℕ) {keys : List κ}
    (hnodup : keys.Nodup) {i j k : ℕ} {key : κ} (hij : i ≤ j) (hjk : j ≤ k)
    (hi : (keys.flatMap fun key => List.replicate (size key) key)[i]? =
      some key)
    (hk : (keys.flatMap fun key => List.replicate (size key) key)[k]? =
      some key) :
    (keys.flatMap fun key => List.replicate (size key) key)[j]? =
      some key := by
  induction keys generalizing i j k with
  | nil => simp at hk
  | cons first rest ih =>
      obtain ⟨hfirst, hrest⟩ := List.nodup_cons.mp hnodup
      have hhere : ∀ n < size first,
          (List.replicate (size first) first ++ rest.flatMap
            fun key => List.replicate (size key) key)[n]? = some first := by
        intro n hn
        rw [List.getElem?_append_left (by simpa using hn),
          List.getElem?_replicate, if_pos hn]
      have hlater : ∀ n, size first ≤ n →
          (List.replicate (size first) first ++ rest.flatMap
            fun key => List.replicate (size key) key)[n]? =
          (rest.flatMap
            fun key => List.replicate (size key) key)[n - size first]? := by
        intro n hn
        rw [List.getElem?_append_right (by simpa using hn),
          List.length_replicate]
      rw [List.flatMap_cons] at hi hk ⊢
      rcases Nat.lt_or_ge k (size first) with hlt | hge
      · rw [hhere k hlt] at hk
        rw [hhere j (by omega), hk]
      · rw [hlater k hge] at hk
        -- the key is one of the later ones, so place `i` is behind this block
        have hmem : key ∈ rest := by
          obtain ⟨key', hkey', hin⟩ :=
            List.mem_flatMap.mp (List.mem_of_getElem? hk)
          rw [List.eq_of_mem_replicate hin]
          exact hkey'
        have hge' : size first ≤ i := by
          by_contra hlt
          rw [hhere i (by omega)] at hi
          exact hfirst (Option.some.inj hi ▸ hmem)
        rw [hlater i hge'] at hi
        rw [hlater j (by omega)]
        apply ih hrest (i := i - size first) (k := k - size first)
        · omega
        · omega
        · exact hi
        · exact hk

theorem map_fst_tagged (call : ι × ℕ) :
    (tagged calls call).map Prod.fst =
      List.replicate (frame calls call).length call := by
  rw [tagged, List.map_map]
  exact List.map_const'

theorem Whole.unmixed (h : s.Whole calls) : s.Unmixed := by
  obtain ⟨frames, current, hnodup, hframes, hcurrent, hs⟩ := h
  have hwhole : (frames.flatMap (tagged calls)).map Prod.fst =
      frames.flatMap fun call =>
        List.replicate (frame calls call).length call := by
    rw [List.map_flatMap]
    exact List.flatMap_congr fun call _ => map_fst_tagged call
  rw [Unmixed, hs, List.map_append, hwhole]
  cases current with
  | none =>
      rw [Option.elim_none, List.map_nil, List.append_nil]
      intro i j k call hij hjk
      exact contiguous_blocks _ hnodup hij hjk
  | some w =>
      obtain ⟨sent, hpc, -, hlt⟩ := (hcurrent w).mpr rfl
      have hnew : s.call w ∉ frames := fun hmem =>
        not_written_call hpc hlt ((hframes _).mp hmem)
      classical
      let size := Function.update (fun call => (frame calls call).length)
        (s.call w) sent
      have hblocks : (frames.flatMap fun call =>
            List.replicate (frame calls call).length call) ++
          ((some w).elim [] (s.sentPart calls)).map Prod.fst =
          (frames ++ [s.call w]).flatMap fun call =>
            List.replicate (size call) call := by
        rw [List.flatMap_append, List.flatMap_singleton, Option.elim_some,
          sentPart, hpc, List.map_take, map_fst_tagged, List.take_replicate,
          Nat.min_eq_left hlt.le, show size (s.call w) = sent from
            Function.update_self _ _ _]
        congr 1
        refine List.flatMap_congr fun call hcall => ?_
        rw [show size call = (frame calls call).length from
          Function.update_of_ne (ne_of_mem_of_not_mem hcall hnew) _ _]
      rw [hblocks]
      intro i j k call hij hjk
      refine contiguous_blocks size ?_ hij hjk
      rw [← List.concat_eq_append]
      exact List.Nodup.concat hnew hnodup

/-! ## §3  Steps -/

def Busy (calls : ι → List BinaryOStream) (s : WireState ι) : Prop :=
  ∀ w, (s.writers w).pc ≠ .outside → (s.writers w).done < (calls w).length

/-- No send is made while another worker's frame is on the wire in part. -/
def SendsAlone (calls : ι → List BinaryOStream) (s : WireState ι) :
    WireStep ι → Prop
  | .send w _ => ∀ w', w' ≠ w → ¬ s.PartlySent calls w'
  | _ => True

theorem Busy.of_moved (h : s.Busy calls) {writer : Writer}
    (hmoved : s.Moved s' w writer)
    (hwriter : writer.pc ≠ .outside → writer.done < (calls w).length) :
    s'.Busy calls := by
  intro w'
  by_cases hw : w' = w
  · subst hw
    rw [hmoved.self]
    exact hwriter
  · rw [hmoved.others w' hw]
    exact h w'

theorem Whole.of_pc (h : s.Whole calls) (hstream : s'.stream = s.stream)
    {pc : WriterPc} (hmoved : s.Moved s' w { s.writers w with pc := pc })
    (hold : ∀ sent, (s.writers w).pc ≠ .sending sent)
    (hpc : ∀ sent, pc = .sending sent → sent = 0)
    (hlt : (s.writers w).done < (calls w).length) : s'.Whole calls := by
  have hcall : s'.call w = s.call w := by
    rw [call, call, hmoved.self]
  apply h.quiet hstream hmoved
  · rintro ⟨sent, hsent, -, -⟩
    exact hold sent hsent
  · rintro ⟨sent, hsent, hpos, -⟩
    rw [hmoved.self] at hsent
    exact Nat.ne_of_gt hpos (hpc sent hsent)
  · intro i
    rw [Written, Written, hmoved.self, hcall]
    refine or_congr_right (iff_of_false ?_ fun h => hold _ h.2)
    rintro ⟨hi, hall⟩
    have htwo : 2 ≤ (frame calls (s.call w)).length := two_le_frame hlt
    rw [← show (w, i) = s.call w from hi, hpc _ hall] at htwo
    omega

theorem Whole.leave (h : s.Whole calls) (hstream : s'.stream = s.stream)
    (hmoved : s.Moved s' w { done := (s.writers w).done + 1 })
    (hpc : (s.writers w).pc = .sending (frame calls (s.call w)).length) :
    s'.Whole calls := by
  apply h.quiet hstream hmoved
  · rintro ⟨sent, hsent, -, hlt⟩
    have hall := hpc.symm.trans hsent
    injection hall with hall
    omega
  · rintro ⟨sent, hsent, -⟩
    rw [hmoved.self] at hsent
    cases hsent
  · intro i
    rw [Written, Written, hmoved.self]
    constructor
    · rintro (hdone | ⟨-, hsent⟩)
      · rcases Nat.lt_or_eq_of_le (Nat.le_of_lt_succ hdone) with hlt | rfl
        · exact Or.inl hlt
        · exact Or.inr ⟨rfl, hpc⟩
      · cases hsent
    · rintro (hdone | ⟨hi, -⟩)
      · exact Or.inl (Nat.lt_succ_of_lt hdone)
      · have hi : i = (s.writers w).done := congrArg Prod.snd hi
        exact Or.inl (Nat.lt_succ_of_le hi.le)

theorem whole_init : ({} : WireState ι).Whole calls := by
  refine ⟨[], none, List.nodup_nil, ?_, ?_, rfl⟩
  · intro call
    refine iff_of_false List.not_mem_nil ?_
    rintro (hdone | ⟨-, hall⟩)
    · exact Nat.not_lt_zero _ hdone
    · cases hall
  · intro w
    refine iff_of_false ?_ ?_
    · rintro ⟨sent, hsent, -⟩
      cases hsent
    · rintro ⟨⟩

section Steps

variable [DecidableEq ι]

theorem Busy.step {a : WireStep ι} (h : s.Busy calls)
    (hstep : step calls s a = some s') : s'.Busy calls := by
  cases a with
  | construct w =>
      obtain ⟨⟨-, -, hlt⟩, hs'⟩ := Option.ite_none_right_eq_some.mp hstep
      cases hs'
      exact h.of_moved (moved_setWriter ..) fun _ => hlt
  | destroy w =>
      obtain ⟨hpc, hs'⟩ := Option.ite_none_right_eq_some.mp hstep
      cases hs'
      refine h.of_moved (moved_setWriter ..) fun _ => h w ?_
      rw [hpc]
      rintro ⟨⟩
  | send w size =>
      rw [WireState.step] at hstep
      split at hstep
      · rename_i sent hpc
        obtain ⟨-, hs'⟩ := Option.ite_none_right_eq_some.mp hstep
        cases hs'
        refine h.of_moved (moved_setWriter ..) fun _ => h w ?_
        rw [hpc]
        rintro ⟨⟩
      · cases hstep
  | leave w =>
      obtain ⟨-, hs'⟩ := Option.ite_none_right_eq_some.mp hstep
      cases hs'
      exact h.of_moved (moved_setWriter ..) fun hne => absurd rfl hne

/-- **One step** made alone keeps the wire whole. -/
theorem Whole.step {a : WireStep ι} (h : s.Whole calls) (hbusy : s.Busy calls)
    (halone : s.SendsAlone calls a) (hstep : step calls s a = some s') :
    s'.Whole calls := by
  cases a with
  | construct w =>
      obtain ⟨⟨hpc, -, hlt⟩, hs'⟩ := Option.ite_none_right_eq_some.mp hstep
      cases hs'
      refine h.of_pc rfl (moved_setWriter ..) ?_ ?_ hlt
      · intro sent hsent
        cases hpc.symm.trans hsent
      · rintro sent ⟨⟩
  | destroy w =>
      obtain ⟨hpc, hs'⟩ := Option.ite_none_right_eq_some.mp hstep
      cases hs'
      refine h.of_pc rfl (moved_setWriter ..) ?_ ?_ (hbusy w ?_)
      · intro sent hsent
        cases hpc.symm.trans hsent
      · rintro sent ⟨⟩
        rfl
      · rw [hpc]
        rintro ⟨⟩
  | send w size =>
      rw [WireState.step] at hstep
      split at hstep
      · rename_i sent hpc
        obtain ⟨⟨hsize, hle⟩, hs'⟩ :=
          Option.ite_none_right_eq_some.mp hstep
        cases hs'
        exact h.send hpc (moved_setWriter ..) halone hsize hle rfl
      · cases hstep
  | leave w =>
      obtain ⟨hpc, hs'⟩ := Option.ite_none_right_eq_some.mp hstep
      cases hs'
      exact h.leave rfl (moved_setWriter ..) hpc

end Steps

end WireState

/-! ## §4  Runs -/

/-- Behind the end of the guard, before the return from the call. -/
def WriterPc.Sends : WriterPc → Prop
  | .sending _ => True
  | _ => False

instance : DecidablePred WriterPc.Sends
  | .sending _ => .isTrue trivial
  | .outside => .isFalse id
  | .guarded => .isFalse id

namespace WireState

variable {calls : ι → List BinaryOStream} {s s' : WireState ι} {w : ι}

/-- **The condition**: no worker constructs his guard while another one has lost
his and has not returned. -/
def InTurn (s : WireState ι) : WireStep ι → Prop
  | .construct w => ∀ w', w' ≠ w → ¬ (s.writers w').pc.Sends
  | _ => True

/-- One worker at most is inside, and a guard holds the lock. -/
structure Exclusive (s : WireState ι) : Prop where
  inside : ∀ w w', (s.writers w).pc ≠ .outside →
    (s.writers w').pc ≠ .outside → w = w'
  locked : ∀ w, (s.writers w).pc = .guarded → s.locked = true

theorem Exclusive.sendsAlone (h : s.Exclusive) {size : ℕ} {sent : ℕ}
    (hpc : (s.writers w).pc = .sending sent) :
    s.SendsAlone calls (.send w size) := by
  rintro w' hne ⟨sent', hpc', -⟩
  refine hne (h.inside w' w ?_ ?_)
  · rw [hpc']
    rintro ⟨⟩
  · rw [hpc]
    rintro ⟨⟩

theorem Exclusive.moved (h : s.Exclusive) {writer : Writer}
    (hmoved : s.Moved s' w writer) (hpc : (s.writers w).pc ≠ .outside)
    (hwriter : writer.pc ≠ .guarded) : s'.Exclusive := by
  have hothers : ∀ w', w' ≠ w → (s'.writers w').pc = .outside := by
    intro w' hne
    rw [hmoved.others w' hne]
    by_contra hpc'
    exact hne (h.inside w' w hpc' hpc)
  constructor
  · intro w₁ w₂ h₁ h₂
    have hone : ∀ w', (s'.writers w').pc ≠ .outside → w' = w :=
      fun w' hpc' => by_contra fun hne => hpc' (hothers w' hne)
    rw [hone w₁ h₁, hone w₂ h₂]
  · intro w₁ h₁
    by_cases hw : w₁ = w
    · rw [hw, hmoved.self] at h₁
      exact absurd h₁ hwriter
    · cases (hothers w₁ hw).symm.trans h₁

/-- **What holds in every run in turn.** -/
structure Orderly (calls : ι → List BinaryOStream) (s : WireState ι) :
    Prop where
  busy : s.Busy calls
  exclusive : s.Exclusive
  whole : s.Whole calls

theorem orderly_init : ({} : WireState ι).Orderly calls :=
  ⟨fun _ hw => absurd rfl hw,
    ⟨fun _ _ hw => absurd rfl hw, fun _ hw => by cases hw⟩, whole_init⟩

section Runs

variable [DecidableEq ι]

/-- **One step** in turn: the lock keeps the others out up to the end of the
guard, the condition from there on. -/
theorem Exclusive.step {a : WireStep ι} (h : s.Exclusive) (hturn : s.InTurn a)
    (hstep : step calls s a = some s') : s'.Exclusive := by
  cases a with
  | construct w =>
      obtain ⟨⟨-, hfree, -⟩, hs'⟩ := Option.ite_none_right_eq_some.mp hstep
      cases hs'
      have houtside : ∀ w', w' ≠ w → (s.writers w').pc = .outside := by
        intro w' hne
        cases hpc : (s.writers w').pc with
        | outside => rfl
        | guarded => cases hfree.symm.trans (h.locked w' hpc)
        | sending sent => exact absurd (by rw [hpc]; trivial) (hturn w' hne)
      have hone : ∀ w', (Function.update s.writers w
          { s.writers w with pc := .guarded } w').pc ≠ .outside → w' = w := by
        intro w' hpc
        by_contra hne
        rw [Function.update_of_ne hne] at hpc
        exact hpc (houtside w' hne)
      exact ⟨fun w₁ w₂ h₁ h₂ => (hone w₁ h₁).trans (hone w₂ h₂).symm,
        fun _ _ => rfl⟩
  | destroy w =>
      obtain ⟨hpc, hs'⟩ := Option.ite_none_right_eq_some.mp hstep
      cases hs'
      refine h.moved (moved_setWriter ..) ?_ ?_
      · rw [hpc]
        rintro ⟨⟩
      · rintro ⟨⟩
  | send w size =>
      rw [WireState.step] at hstep
      split at hstep
      · rename_i sent hpc
        obtain ⟨-, hs'⟩ := Option.ite_none_right_eq_some.mp hstep
        cases hs'
        refine h.moved (moved_setWriter ..) ?_ ?_
        · rw [hpc]
          rintro ⟨⟩
        · rintro ⟨⟩
      · cases hstep
  | leave w =>
      obtain ⟨hpc, hs'⟩ := Option.ite_none_right_eq_some.mp hstep
      cases hs'
      refine h.moved (moved_setWriter ..) ?_ ?_
      · rw [hpc]
        rintro ⟨⟩
      · rintro ⟨⟩

theorem Orderly.step {a : WireStep ι} (h : s.Orderly calls) (hturn : s.InTurn a)
    (hstep : WireState.step calls s a = some s') : s'.Orderly calls := by
  refine ⟨h.busy.step hstep, h.exclusive.step hturn hstep,
    h.whole.step h.busy ?_ hstep⟩
  cases a with
  | send w size =>
      rw [WireState.step] at hstep
      split at hstep
      · next sent hpc => exact h.exclusive.sendsAlone hpc
      · cases hstep
  | _ => trivial

theorem orderly_of_run {steps : List (WireStep ι)}
    (hrun : (machine calls).Run InTurn steps s) : s.Orderly calls := by
  apply hrun.invariant (M := machine calls)
  · rintro _ rfl
    exact orderly_init
  · exact fun s a s' h hturn hstep => h.step hturn hstep

/-- **Frames stay whole** in every run in which no worker comes in between the
early end of another one's guard and his return. -/
theorem frames_whole {steps : List (WireStep ι)}
    (hrun : (machine calls).Run InTurn steps s) :
    s.Whole calls ∧ s.Unmixed :=
  ⟨(orderly_of_run hrun).whole, (orderly_of_run hrun).whole.unmixed⟩

end Runs

/-! ### Two workers with an error frame each -/

/-- An error frame each, eleven bytes long. -/
def twoErrors : Bool → List BinaryOStream := fun w =>
  [(GenericProtocolError.userUnrecognized (if w then 1 else 2)).store
    createAdaptedErrorBuffer]

instance [DecidableEq ι] [Fintype ι] (s : WireState ι) (a : WireStep ι) :
    Decidable (s.InTurn a) :=
  match a with
  | .construct w => inferInstanceAs
      (Decidable (∀ w', w' ≠ w → ¬ (s.writers w').pc.Sends))
  | .destroy _ | .send _ _ | .leave _ => .isTrue trivial

/-- The second worker comes in when the first one has returned. -/
def inTurn : List (WireStep Bool) :=
  [.construct true, .destroy true, .send true 3, .send true 8, .leave true,
    .construct false, .destroy false, .send false 5, .send false 6]

/-- He comes in as soon as the lock lets him, and his frame goes out when part
of the first one has. -/
def overlapping : List (WireStep Bool) :=
  [.construct true, .destroy true, .construct false, .destroy false,
    .send true 3, .send false 11, .send true 8]

def wireAfter (steps : List (WireStep Bool)) : WireState Bool :=
  ((machine twoErrors).schedule {} steps).getD {}

theorem inTurn_whole : (wireAfter inTurn).Whole twoErrors ∧
    (wireAfter inTurn).Unmixed :=
  frames_whole (Machine.run_of_schedule inTurn rfl (by decide) rfl)

theorem overlapping_mixed :
    ¬ ∀ s, (machine twoErrors).Reachable s → s.Unmixed := by
  intro h
  have hmixed := h (wireAfter overlapping)
    (Machine.reachable_of_schedule overlapping rfl rfl)
  -- byte 3 is of the second frame, bytes 2 and 14 of the first
  have hbyte := hmixed 2 3 14 (true, 0) (by decide) (by decide) rfl rfl
  exact absurd hbyte (by decide)

end WireState

end RatingService
