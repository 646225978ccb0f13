import RatingService.Service.CurrentFrames
import RatingService.Service.FrameInterleaving
import RatingService.Test.Responses

/-!
# Answered jobs

From the job a worker takes to the response the client finds: the frames are
made in a session, go over the wire between those of the other workers, and
are read by the client's loop one after the other.

- §1: what is on the wire.
- §2: what the client reads.
-/

namespace RatingService

open Runs

variable {dm : DataModel} {n : ℕ}

/-! ## §1  The wire -/

namespace WireState

variable {ι : Type} {calls : ι → List BinaryOStream} {s s' : WireState ι}

theorem Written.made (hbusy : s.Busy calls)
    (h : ∀ w, (s.writers w).done ≤ (calls w).length) {call : ι × ℕ}
    (hcall : s.Written calls call) : call.2 < (calls call.1).length := by
  rcases hcall with hlt | ⟨heq, hpc⟩
  · exact hlt.trans_le (h call.1)
  · rw [heq]
    exact hbusy call.1 (by rw [hpc]; rintro ⟨⟩)

theorem map_snd_tagged (call : ι × ℕ) :
    (tagged calls call).map Prod.snd = frame calls call := by
  rw [tagged, List.map_map]
  exact List.map_id _

variable [DecidableEq ι]

theorem done_le_step {a : WireStep ι} (hbusy : s.Busy calls)
    (h : ∀ w, (s.writers w).done ≤ (calls w).length)
    (hs : step calls s a = some s') (w : ι) :
    (s'.writers w).done ≤ (calls w).length := by
  have hset : ∀ (w₀ : ι) (writer : Writer), writer.done ≤ (calls w₀).length →
      (Function.update s.writers w₀ writer w).done ≤ (calls w).length := by
    intro w₀ writer hle
    by_cases hw : w = w₀
    · rw [hw, Function.update_self]
      exact hle
    · rw [Function.update_of_ne hw]
      exact h w
  cases a with
  | construct w₀ =>
      obtain ⟨-, hs⟩ := Option.ite_none_right_eq_some.mp hs
      cases hs
      exact hset w₀ _ (h w₀)
  | destroy w₀ =>
      obtain ⟨-, hs⟩ := Option.ite_none_right_eq_some.mp hs
      cases hs
      exact hset w₀ _ (h w₀)
  | send w₀ size =>
      rw [step] at hs
      split at hs
      · obtain ⟨-, hs⟩ := Option.ite_none_right_eq_some.mp hs
        cases hs
        exact hset w₀ _ (h w₀)
      · cases hs
  | leave w₀ =>
      obtain ⟨hpc, hs⟩ := Option.ite_none_right_eq_some.mp hs
      cases hs
      exact hset w₀ _ (hbusy w₀ (by rw [hpc]; rintro ⟨⟩))

/-- **What may be left over**: of the one frame that is being sent, the bytes
that are on the wire; nothing, if there is no such frame. -/
def LeftOver (calls : ι → List BinaryOStream) (s : WireState ι)
    (part : BufferT) : Prop :=
  part = [] ∧ (∀ w, ¬ s.PartlySent calls w) ∨
  ∃ w sent, (∀ w', s.PartlySent calls w' ↔ w' = w) ∧
    (s.writers w).pc = .sending sent ∧
    part = (frame calls (s.call w)).take sent

/-- **The bytes on the wire**, in a run in turn: the frames of calls that are
made, each written one of them once, and behind them what is left over. -/
theorem stream_of_run {steps : List (WireStep ι)}
    (hrun : (machine calls).Run InTurn steps s) :
    ∃ (written : List (ι × ℕ)) (part : BufferT),
      written.Nodup ∧
      (∀ call, call ∈ written ↔ s.Written calls call) ∧
      (∀ call ∈ written, call.2 < (calls call.1).length) ∧
      s.stream.map Prod.snd = (written.map (frame calls)).flatten ++ part ∧
      s.LeftOver calls part := by
  obtain ⟨⟨hbusy, -, hwhole⟩, hdone⟩ : s.Orderly calls ∧
      ∀ w, (s.writers w).done ≤ (calls w).length := by
    apply hrun.invariant (M := machine calls)
    · rintro _ rfl
      exact ⟨orderly_init, fun _ => Nat.zero_le _⟩
    · rintro s a s' ⟨horderly, hdone⟩ hturn hs
      exact ⟨horderly.step hturn hs, done_le_step horderly.busy hdone hs⟩
  obtain ⟨written, current, hnodup, hwritten, hcurrent, hstream⟩ := hwhole
  have hbytes : s.stream.map Prod.snd = (written.map (frame calls)).flatten ++
      (current.elim [] (s.sentPart calls)).map Prod.snd := by
    rw [hstream, List.map_append, List.map_flatMap, List.flatMap_def]
    congr 2
    exact List.map_congr_left fun call _ => map_snd_tagged call
  refine ⟨written, _, hnodup, hwritten,
    fun call hcall => ((hwritten call).mp hcall).made hbusy hdone, hbytes, ?_⟩
  cases current with
  | none => exact .inl ⟨rfl, fun w hw => by cases (hcurrent w).mp hw⟩
  | some w =>
      obtain ⟨sent, hpc, -⟩ := (hcurrent w).mpr rfl
      refine .inr ⟨w, sent, fun w' => ?_, hpc, ?_⟩
      · rw [hcurrent, Option.some.injEq, eq_comm]
      · rw [Option.elim_some, sentPart, hpc, List.map_take, map_snd_tagged]

end WireState

/-! ## §2  The client -/

theorem exists_forall₂ {α β : Type} {R : α → β → Prop} {l : List α}
    (h : ∀ a ∈ l, ∃ b, R a b) : ∃ l', List.Forall₂ R l l' := by
  induction l with
  | nil => exact ⟨[], .nil⟩
  | cons a l ih =>
      obtain ⟨⟨b, hb⟩, hrest⟩ := List.forall_mem_cons.mp h
      obtain ⟨l', hl'⟩ := ih hrest
      exact ⟨b :: l', .cons hb hl'⟩

namespace AnnouncingSession

variable {s : AnnouncingSession dm n}

/-- The jobs a worker serves are about users. -/
theorem Maintained.reported (h : s.Maintained) {w : Fin n}
    {served : ServedJob dm} (hserved : served ∈ s.served w) :
    served.job.Reported := by
  cases hjob : served.job with
  | error e =>
      refine h.aboutUsers e (h.errors.mem_given (i := w) ?_)
      exact List.mem_filterMap.mpr ⟨served, hserved, by rw [hjob]; rfl⟩
  | userIdPromise _ => exact trivial
  | userData _ => exact trivial

/-- **The client reads the right responses**: while every worker is back from
his wait in time, none comes in between the end of another one's guard and his
return, and the ratings leave room for the neighbourhood of their last place,
what is on the wire is read as one response for each written frame, and the
response is the one that the frame's job should bring by the tables it was
served from. -/
theorem responses_right {steps : List (AnnouncingStep dm n)}
    (hrun : (machine dm n).Run Timely steps s)
    (hroom : ∀ w, ∀ served ∈ s.served w,
      served.tables.rating.length + 11 < 2 ^ 31)
    {calls : Fin n → List BinaryOStream}
    (hcalls : ∀ w, ∀ buffer ∈ calls w, ∃ served ∈ s.served w,
      served.frame = .ok (writeMessage buffer).storage)
    {sends : List (WireStep (Fin n))} {wire : WireState (Fin n)}
    (hwire : (WireState.machine calls).Run WireState.InTurn sends wire)
    (reader : ResponseReader dm) :
    ∃ (written : List (Fin n × ℕ)) (responses : List (Response dm))
      (reader' : ResponseReader dm) (part : BufferT),
      written.Nodup ∧
      (∀ call, call ∈ written ↔ wire.Written calls call) ∧
      List.Forall₂ (fun call response => ∃ served ∈ s.served call.1,
        served.frame = .ok (frame calls call) ∧
        served.job.Brings served.tables response) written responses ∧
      ResponseReader.processResponses written.length reader
        (wire.stream.map Prod.snd) = .ok (responses, reader', part) ∧
      wire.LeftOver calls part := by
  have h := coherent_of_run hrun
  obtain ⟨written, part, hnodup, hwritten, hmade, hstream, hpart⟩ :=
    WireState.stream_of_run hwire
  -- what each written frame is read as
  have hreads : ∀ call ∈ written, ∃ response : Response dm,
      Reads (frame calls call) response ∧ ∃ served ∈ s.served call.1,
        served.frame = .ok (frame calls call) ∧
        served.job.Brings served.tables response := by
    intro call hcall
    obtain ⟨buffer, hbuffer⟩ : ∃ buffer, (calls call.1)[call.2]? = some buffer :=
      ⟨_, List.getElem?_eq_getElem (hmade call hcall)⟩
    obtain ⟨served, hserved, hframe⟩ :=
      hcalls call.1 buffer (List.mem_of_getElem? hbuffer)
    replace hframe : served.frame = .ok (frame calls call) := by
      rw [hframe, frame, hbuffer]
      rfl
    obtain ⟨hservable, bytes, hok, hanswered⟩ := h.served call.1 served hserved
    cases hframe.symm.trans hok
    obtain ⟨response, hread, hbrings⟩ := hanswered.reads hservable
      (hroom call.1 served hserved) (h.orderly.maintained.reported hserved)
    exact ⟨response, hread, served, hserved, hok, hbrings⟩
  obtain ⟨responses, hboth⟩ := exists_forall₂ hreads
  have hframes : List.Forall₂ Reads (written.map (frame calls)) responses :=
    List.forall₂_map_left_iff.mpr (hboth.imp fun _ _ h => h.1)
  obtain ⟨reader', hprocess⟩ := processResponses_frames hframes reader part
  rw [List.length_map, ← hstream] at hprocess
  exact ⟨written, responses, reader', part, hnodup, hwritten,
    hboth.imp fun _ _ h => h.2, hprocess, hpart⟩

/-! ### Two workers, an error and a pack each -/

/-- What the workers have written of what they have served. -/
def fourCalls : Fin 2 → List BinaryOStream
  | 0 => [(GenericProtocolError.userUnrecognized 7).store
        createAdaptedErrorBuffer,
      { storage := ratingFrame threeConnected.1.standings 1 2 }]
  | 1 => [(GenericProtocolError.userUnrecognized 8).store
        createAdaptedErrorBuffer,
      { storage := ratingFrame threeConnected.1.standings 2 1 }]

/-- The second worker's pack is on the wire in part. -/
def fourSent : List (WireStep (Fin 2)) :=
  [.construct 0, .destroy 0, .send 0 3, .send 0 8, .leave 0,
    .construct 1, .destroy 1, .send 1 11, .leave 1,
    .construct 0, .destroy 0, .send 0 30, .send 0 24, .leave 0,
    .construct 1, .destroy 1, .send 1 20]

theorem untilServed_responses :
    ∃ s wire written responses reader',
      (machine .lp64 2).schedule lastSecond untilServed = some s ∧
      (WireState.machine fourCalls).schedule {} fourSent = some wire ∧
      (0, 1) ∈ written ∧ (1, 0) ∈ written ∧ (1, 1) ∉ written ∧
      List.Forall₂ (fun call response => ∃ served ∈ s.served call.1,
        served.frame = .ok (frame fourCalls call) ∧
        served.job.Brings served.tables response) written responses ∧
      ResponseReader.processResponses written.length {}
        (wire.stream.map Prod.snd) =
          .ok (responses, reader', (frame fourCalls (1, 1)).take 20) := by
  have hrun : ((machine .lp64 2).schedule lastSecond untilServed).map (fun s =>
      decide ((∀ w, ∀ served ∈ s.served w,
          served.tables.rating.length + 11 < 2 ^ 31) ∧
        ∀ w, ∀ buffer ∈ fourCalls w, ∃ served ∈ s.served w,
          served.frame = .ok (writeMessage buffer).storage)) = some true := by
    decide +kernel
  have hsent : ((WireState.machine fourCalls).schedule {} fourSent).map
      (fun wire => (wire.writers 0, wire.writers 1)) =
        some (⟨2, .outside⟩, ⟨1, .sending 20⟩) := by
    decide +kernel
  have hlength : (frame fourCalls (1, 1)).length = 54 := by
    decide +kernel
  obtain ⟨s, hs, hserved⟩ := Option.map_eq_some_iff.mp hrun
  obtain ⟨hroom, hcalls⟩ := of_decide_eq_true hserved
  obtain ⟨wire, hwire, hwriters⟩ := Option.map_eq_some_iff.mp hsent
  obtain ⟨hfirst, hsecond⟩ := Prod.mk.inj hwriters
  obtain ⟨written, responses, reader', part, -, hwritten, hright, hprocess,
      hpart⟩ :=
    responses_right (Machine.run_of_schedule _ init_lastSecond
        (by decide +kernel) hs) hroom hcalls
      (Machine.run_of_schedule _ rfl (by decide +kernel) hwire) {}
  -- the second worker sends the second frame of his
  have hcall : wire.call 1 = (1, 1) := by
    rw [WireState.call, hsecond]
  have hpartly : wire.PartlySent fourCalls 1 := by
    refine ⟨20, by rw [hsecond], by decide, ?_⟩
    rw [hcall, hlength]
    decide
  have htaken : part = (frame fourCalls (1, 1)).take 20 := by
    rcases hpart with ⟨-, hnone⟩ | ⟨w, sent, hone, hpc, hpart⟩
    · exact absurd hpartly (hnone 1)
    · cases (hone 1).mp hpartly
      rw [hsecond] at hpc
      cases hpc
      rw [hpart, hcall]
  rw [htaken] at hprocess
  refine ⟨s, wire, written, responses, reader', hs, hwire, ?_, ?_, ?_, hright,
    hprocess⟩
  · exact (hwritten _).mpr (.inl (by rw [hfirst]; decide))
  · exact (hwritten _).mpr (.inl (by rw [hsecond]; decide))
  · rw [hwritten]
    rintro (hdone | ⟨-, hall⟩)
    · rw [hsecond] at hdone
      exact absurd hdone (by decide)
    · rw [hsecond, hlength] at hall
      cases hall

end AnnouncingSession

end RatingService
