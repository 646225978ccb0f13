import RatingService.Framework.RoundRobin
import RatingService.Service.SettledTables

/-!
# Delivered jobs

What the announcer's thread puts into the queues, over any run of a session:
the errors of the recalculations, and minute by minute the connected users.
The queues are filled in turn, each is emptied from its front by the one
worker it belongs to, and so every job comes to one worker, in its order.

- §1: the seconds of a minute.
- §2: the jobs of a kind.
- §3: the invariant.
- §4: the steps.
- §5: runs, and a user connected at the last second of the minute.
-/

namespace RatingService

open Runs RoundRobin

variable {dm : DataModel} {n : ℕ}

/-! ## §1  The seconds of a minute -/

/-- A list holds what the buckets hold from one second to another. -/
structure IterationData.Collects (it : IterationData) (first last : ℕ)
    (l : List UserRef) : Prop where
  nodup : l.Nodup
  mem_iff : ∀ p, p ∈ l ↔ ∃ second : Fin 60,
    first ≤ second.val ∧ second.val < last ∧ p ∈ it.usersOnline second

namespace IterationData

variable {it : IterationData} {first last : ℕ} {l order : List UserRef}

theorem collects_nil (it : IterationData) (first : ℕ) :
    it.Collects first first [] where
  nodup := List.nodup_nil
  mem_iff p := by
    refine ⟨fun h => absurd h List.not_mem_nil, ?_⟩
    rintro ⟨second, hle, hlt, -⟩
    omega

/-- One more bucket; nobody is in two of them. -/
theorem Collects.bucket {d : CoreRatingData dm} (h : it.Collects first last l)
    (hd : Consistent d it) {second : Fin 60} (hsecond : second.val = last)
    (hle : first ≤ last)
    (horder : AnnouncingSession.Enumerates order (it.usersOnline second)) :
    it.Collects first (last + 1) (l ++ order) := by
  have hmem : ∀ p, p ∈ order ↔ p ∈ it.usersOnline second := fun p => by
    rw [← horder.2, List.mem_toFinset]
  refine ⟨h.nodup.append horder.1 ?_, fun p => ?_⟩
  · intro p hp hp'
    obtain ⟨earlier, -, hlt, hearlier⟩ := (h.mem_iff p).mp hp
    obtain ⟨u, hu, -, hat⟩ := (hd.buckets _ _).mp hearlier
    obtain ⟨u', hu', -, hat'⟩ := (hd.buckets _ _).mp ((hmem p).mp hp')
    rw [hu] at hu'
    cases hu'
    omega
  · rw [List.mem_append, h.mem_iff, hmem]
    constructor
    · rintro (⟨s, hfirst, hlt, hp⟩ | hp)
      · exact ⟨s, hfirst, by omega, hp⟩
      · exact ⟨second, by omega, by omega, hp⟩
    · rintro ⟨s, hfirst, hlt, hp⟩
      by_cases hs : s.val = last
      · rw [Fin.ext (hs.trans hsecond.symm)] at hp
        exact .inr hp
      · exact .inl ⟨s, hfirst, by omega, hp⟩

theorem Collects.minute_over (h : it.Collects first (last + 1) l)
    (hlast : ¬ last < 60) : it.Collects first last l where
  nodup := h.nodup
  mem_iff p := by
    rw [h.mem_iff]
    refine exists_congr fun second => ?_
    have hlt := second.isLt
    rw [show (second.val < last + 1 ↔ second.val < last) by omega]

end IterationData

/-! ## §2  The jobs of a kind -/

def WorkerJob.userData? : WorkerJob → Option UserRef
  | .userData p => some p
  | _ => none

def WorkerJob.error? : WorkerJob → Option GenericProtocolError
  | .error e => some e
  | _ => none

namespace AnnouncingSession

/-- The pointers the worker has taken, in their order. -/
def pointers (s : AnnouncingSession dm n) (w : Fin n) : List UserRef :=
  (s.served w).filterMap (·.job.userData?)

def errors (s : AnnouncingSession dm n) (w : Fin n) :
    List GenericProtocolError :=
  (s.served w).filterMap (·.job.error?)

def minute (s : AnnouncingSession dm n) : List UserRef :=
  s.announced.drop s.minuteStart

end AnnouncingSession

namespace JobQueue

theorem val_nextIndex (i : Fin n) :
    (nextIndex i).val = if i.val + 1 = n then 0 else i.val + 1 := by
  unfold nextIndex
  split <;> rfl

theorem errorQueue_enqueueUserData (q : JobQueue n) (p : UserRef)
    (w : Fin n) : ((q.enqueueUserData p).queues w).errorQueue =
      (q.queues w).errorQueue := by
  dsimp only [enqueueUserData]
  by_cases hw : w = q.userDataIndex
  · rw [hw, Function.update_self]
  · rw [Function.update_of_ne hw]

theorem userDataQueue_enqueueErrorJob (q : JobQueue n)
    (error : GenericProtocolError) (w : Fin n) :
    ((q.enqueueErrorJob error).queues w).userDataQueue =
      (q.queues w).userDataQueue := by
  dsimp only [enqueueErrorJob]
  by_cases hw : w = q.errorIndex
  · rw [hw, Function.update_self]
  · rw [Function.update_of_ne hw]

variable {q : JobQueue n} {given : List GenericProtocolError}
  {taken : Fin n → List GenericProtocolError}

theorem dealt_enqueueErrorJob (errors : List GenericProtocolError)
    (h : Dealt given taken (fun w => (q.queues w).errorQueue) q.errorIndex) :
    Dealt (given ++ errors) taken
      (fun w => ((errors.foldl enqueueErrorJob q).queues w).errorQueue)
      (errors.foldl enqueueErrorJob q).errorIndex := by
  induction errors generalizing q given with
  | nil =>
      rw [List.append_nil]
      exact h
  | cons error errors ih =>
      have hgiven := ih (h.give (a := error)
        (fun w => errorQueue_enqueueErrorJob q error w)
        (val_nextIndex q.errorIndex))
      rw [List.append_assoc, List.singleton_append] at hgiven
      exact hgiven

end JobQueue

namespace Session

variable {s s' : Session dm n}

theorem fits_step {a : SessionStep dm n} (hbuffers : ∀ i, (s.buffer i).Fits)
    (hbatch : s.batch.Fits)
    (hmsg : ∀ second msg, a = .dispatch second msg → msg.NameFits)
    (hs : s.step a = some s') : (∀ i, (s'.buffer i).Fits) ∧ s'.batch.Fits := by
  have hset : ∀ (i : Fin 2) (buffer : IncomingDataBuffer dm), buffer.Fits →
      ∀ j, ((s.incomingData.setBuffer i buffer).buffers j).Fits := by
    intro i buffer hbuffer j
    dsimp only [IncomingDataDoubleBuffer.setBuffer]
    by_cases hj : j = i
    · rw [hj, Function.update_self]
      exact hbuffer
    · rw [Function.update_of_ne hj]
      exact hbuffers j
  cases a with
  | listener =>
      obtain ⟨hsame, hbatch'⟩ := run_data hs
      refine ⟨fun i => ?_, hbatch' ▸ hbatch⟩
      rw [buffer, hsame]
      exact hbuffers i
  | dispatch second msg =>
      obtain ⟨-, hs⟩ := Option.ite_none_right_eq_some.mp hs
      cases hs
      exact ⟨hset _ _ ((hbuffers _).record second (hmsg second msg rfl)),
        hbatch⟩
  | calculator =>
      cases hpc : s.calculator
      all_goals simp only [step, recalculate, hpc, reduceCtorEq] at hs
      case reading taken stage =>
        cases hs
        exact ⟨hbuffers, hbatch.copy (hbuffers taken) stage⟩
      case clearing taken stage =>
        have hclear := (hbuffers taken).copy IncomingDataBuffer.fits_empty stage
        split at hs <;> cases hs <;> exact ⟨hset _ _ hclear, hbatch⟩
      case awaitingReaders taken =>
        split at hs <;> cases hs
        · exact ⟨hbuffers, hbatch⟩
        · exact ⟨hbuffers, IncomingDataBuffer.fits_empty⟩
      all_goals try split at hs
      all_goals cases hs
      all_goals exact ⟨hbuffers, hbatch⟩
  | listenerThrows | announcerStops =>
      obtain ⟨-, hs⟩ := Option.ite_none_right_eq_some.mp hs
      cases hs
      exact ⟨hbuffers, hbatch⟩
  | worker w action =>
      obtain ⟨⟨sync, pc⟩, -, hs⟩ := Option.map_eq_some_iff.mp hs
      cases hs
      exact ⟨hbuffers, hbatch⟩
  | signalError =>
      cases hs
      exact ⟨hbuffers, hbatch⟩

theorem calculator_step {a : SessionStep dm n} (ha : a ≠ .calculator)
    (hs : s.step a = some s') :
    s'.calculator = s.calculator ∨ s'.calculator = .announcing ∨
      s'.calculator = .stopped := by
  cases a with
  | listener =>
      obtain ⟨-, hsame | ⟨-, hstarted⟩, -⟩ := run_frame hs
      · exact .inl hsame
      · exact .inr (.inl hstarted)
  | calculator => exact absurd rfl ha
  | worker w action =>
      obtain ⟨⟨sync, pc⟩, -, hs⟩ := Option.map_eq_some_iff.mp hs
      cases hs
      exact .inl rfl
  | announcerStops =>
      obtain ⟨-, hs⟩ := Option.ite_none_right_eq_some.mp hs
      cases hs
      exact .inr (.inr rfl)
  | dispatch _ _ | listenerThrows =>
      obtain ⟨-, hs⟩ := Option.ite_none_right_eq_some.mp hs
      cases hs
      exact .inl rfl
  | signalError =>
      cases hs
      exact .inl rfl

theorem badFlag_step {a : SessionStep dm n} (hs : s.step a = some s')
    (hflag : s.sync.badFlag = true) : s'.sync.badFlag = true := by
  cases a with
  | listener =>
      replace hs : s.run = some s' := hs
      unfold run at hs
      split at hs
      all_goals try split at hs
      all_goals cases hs
      all_goals first | exact hflag | rfl
  | dispatch _ _ | listenerThrows | announcerStops =>
      obtain ⟨-, hs⟩ := Option.ite_none_right_eq_some.mp hs
      cases hs
      exact hflag
  | calculator =>
      replace hs : s.recalculate = some s' := hs
      unfold recalculate at hs
      repeat' split at hs
      all_goals cases hs
      all_goals exact hflag
  | worker w action =>
      obtain ⟨⟨sync, pc⟩, hwork, hs⟩ := Option.map_eq_some_iff.mp hs
      cases hs
      unfold doWork at hwork
      split at hwork
      all_goals try split at hwork
      all_goals cases hwork
      all_goals first | exact hflag | rfl
  | signalError =>
      cases hs
      rfl

end Session

namespace Announcer

theorem chronoSetIndex_le {s : Announcer} (h : machine.Reachable s) :
    s.chronoSetIndex ≤ 60 := by
  obtain ⟨steps, hrun⟩ := h
  apply hrun.invariant
  · rintro s ⟨clock, rfl⟩
    exact Nat.zero_le _
  · rintro s ⟨a, now⟩ s' hle - hs
    obtain ⟨-, hs⟩ := Option.ite_none_right_eq_some.mp hs
    cases a with
    | start =>
        obtain ⟨-, hs⟩ := Option.ite_none_right_eq_some.mp hs
        cases hs
        exact hle
    | doWork badFlag =>
        replace hs : { s with clock := now }.doWork badFlag = some s' := hs
        have hnow := DateTime.currentSecondIndex_lt now
        unfold doWork at hs
        split at hs
        all_goals try split at hs
        all_goals try split at hs
        all_goals cases hs
        all_goals dsimp only [setExpirationDate] at *
        all_goals omega
    | throws =>
        obtain ⟨-, hs⟩ := Option.ite_none_right_eq_some.mp hs
        cases hs
        exact hle

end Announcer

/-! ## §3  The invariant -/

/-- Outside of `RatingCalculator::recalculate`. -/
def CalculatorPc.Calm : CalculatorPc → Prop
  | .notStarted | .announcing | .stopped => True
  | _ => False

namespace AnnouncingSession

/-- How far `announce` has got with the minute. -/
structure Collected (s : AnnouncingSession dm n) : Prop where
  le : s.firstSecond ≤ s.announcer.chronoSetIndex
  between : s.userBundle = none → s.live.iterationData.Collects s.firstSecond
    s.announcer.chronoSetIndex s.minute
  within : ∀ rest, s.userBundle = some rest →
    s.live.iterationData.Collects s.firstSecond
      (s.announcer.chronoSetIndex + 1) (s.minute ++ rest)

/-- **What holds in every state of a session.** -/
structure Maintained (s : AnnouncingSession dm n) : Prop where
  buffers : ∀ i, (s.session.buffer i).Fits
  batch : s.session.batch.Fits
  called : ¬ s.session.calculator.Calm → s.announcer.pc = .recalculated
  settled : Settled s.tables s.live.iterationData
  bundle : s.announcer.pc ≠ .announcing → s.userBundle = none
  begun : s.minuteStart ≤ s.announced.length
  collected : s.announcer.pc = .announcing ∨ s.announcer.pc = .minuteDone →
    s.Collected
  finished : s.announcer.pc = .minuteDone → s.announcer.chronoSetIndex < 60 →
    s.session.sync.badFlag = true
  userData : Dealt s.announced s.pointers
    (fun w => (s.queue w).userDataQueue) s.live.jobQueue.userDataIndex
  errors : Dealt s.reported s.errors
    (fun w => (s.queue w).errorQueue) s.live.jobQueue.errorIndex
  aboutUsers : ∀ e ∈ s.reported, e.AboutUser

variable {s s' : AnnouncingSession dm n}

theorem maintained_init (hs : (machine dm n).init s) : s.Maintained := by
  obtain ⟨count, h, promiseIndex, d, it, announcer, hsettled, -, hidle, rfl⟩ :=
    hs
  refine ⟨fun _ => IncomingDataBuffer.fits_empty,
    IncomingDataBuffer.fits_empty, fun hcalm => absurd trivial hcalm, hsettled,
    fun _ => rfl, le_rfl, ?_, fun hpc => ?_, Dealt.begin h, Dealt.begin h,
    nofun⟩
  · rintro (hpc | hpc) <;> cases hidle.symm.trans hpc
  · cases hidle.symm.trans hpc

/-! ## §4  The steps -/

/-- A step of a thread that is not the calculator's. The announcer may be
started or stopped with it. -/
theorem Maintained.thread (h : s.Maintained) {a : SessionStep dm n}
    {live : LiveSession dm n} {announcer : Announcer}
    (hlive : s.live.step ⟨a, false⟩ = some live) (ha : a ≠ .calculator)
    (hmsg : ∀ second msg, a = .dispatch second msg → msg.NameFits)
    (hannouncer : announcer = s.announcer ∨
      s.userBundle = none ∧ live.session.calculator.Calm ∧
        announcer.pc ∉ [.recalculated, .announcing, .minuteDone]) :
    ({ s with live, announcer } : AnnouncingSession dm n).Maintained := by
  obtain ⟨hsession, hdata⟩ := LiveSession.step_frame ha hlive
  obtain ⟨hbuffers, hbatch⟩ :=
    Session.fits_step h.buffers h.batch hmsg hsession
  refine ⟨hbuffers, hbatch, ?_, ?_, ?_, h.begun, ?_, ?_, ?_, ?_, h.aboutUsers⟩
  · intro hbusy
    rcases hannouncer with rfl | ⟨-, hcalm, -⟩
    · refine h.called ?_
      rcases Session.calculator_step ha hsession with hcalc | hcalc | hcalc <;>
        rw [session, hcalc] at hbusy
      · exact hbusy
      · exact absurd trivial hbusy
      · exact absurd trivial hbusy
    · exact absurd hcalm hbusy
  · rw [tables, hdata.userData, hdata.iterationData]
    exact h.settled
  · rcases hannouncer with rfl | ⟨hnone, -, -⟩
    · exact h.bundle
    · exact fun _ => hnone
  · intro hpc
    rcases hannouncer with rfl | ⟨-, -, hout⟩
    · obtain ⟨hle, hbetween, hwithin⟩ := h.collected hpc
      refine ⟨hle, ?_, ?_⟩ <;> dsimp only <;> rw [hdata.iterationData]
      · exact hbetween
      · exact hwithin
    · rcases hpc with hpc | hpc <;> rw [show announcer.pc = _ from hpc] at hout <;>
        exact absurd (by simp) hout
  · intro hpc hlt
    rcases hannouncer with rfl | ⟨-, -, hout⟩
    · exact Session.badFlag_step hsession (h.finished hpc hlt)
    · rw [show announcer.pc = _ from hpc] at hout
      exact absurd (by simp) hout
  · exact h.userData.congr (fun _ => rfl) hdata.userDataQueue
      hdata.userDataIndex
  · exact h.errors.congr (fun _ => rfl) hdata.errorQueue hdata.errorIndex

theorem Maintained.calm (h : s.Maintained)
    (hpc : s.announcer.pc = .recalculated →
      s.session.calculator = .announcing) : s.session.calculator.Calm := by
  by_contra hbusy
  rw [hpc (h.called hbusy)] at hbusy
  exact hbusy trivial

theorem Maintained.announce (h : s.Maintained) {p : UserRef}
    {rest : List UserRef} (hpc : s.announcer.pc = .announcing)
    (hbundle : s.userBundle = some (p :: rest)) :
    (s.announce p rest).Maintained where
  buffers := h.buffers
  batch := h.batch
  called := h.called
  settled := h.settled
  bundle hne := absurd hpc hne
  begun := by
    rw [AnnouncingSession.announce, List.length_append]
    exact h.begun.trans (Nat.le_add_right ..)
  collected _ := by
    obtain ⟨hle, -, hwithin⟩ := h.collected (.inl hpc)
    refine ⟨hle, nofun, ?_⟩
    rintro _ ⟨⟩
    dsimp only [AnnouncingSession.announce, minute]
    rw [List.drop_append_of_le_length h.begun, List.append_assoc]
    exact hwithin _ hbundle
  finished hdone := by cases hpc.symm.trans hdone
  userData := (h.userData.give (a := p)
    (fun w => JobQueue.userDataQueue_enqueueUserData _ p w)
    (JobQueue.val_nextIndex _)).congr (fun _ => rfl) (fun _ => rfl) rfl
  errors := h.errors.congr (fun _ => rfl)
    (JobQueue.errorQueue_enqueueUserData _ p) rfl
  aboutUsers := h.aboutUsers

theorem Maintained.load (h : s.Maintained) {second : Fin 60}
    {order : List UserRef} (hsecond : second.val = s.announcer.chronoSetIndex)
    (hpc : s.announcer.pc = .announcing) (hbundle : s.userBundle = none)
    (horder : Enumerates order (s.live.iterationData.usersOnline second)) :
    ({ s with userBundle := some order } : AnnouncingSession dm n).Maintained :=
  { h with
    bundle := fun hne => absurd hpc hne
    collected := fun _ => by
      obtain ⟨hle, hbetween, -⟩ := h.collected (.inl hpc)
      refine ⟨hle, nofun, ?_⟩
      rintro _ ⟨⟩
      exact (hbetween hbundle).bucket h.settled.consistent hsecond hle horder
    userData := h.userData
    errors := h.errors }

theorem Maintained.ticks (h : s.Maintained) (hs : s.Ticks s') :
    s'.Maintained := by
  cases hs with
  | @begins announcer hpc hcalc hpc' hindex =>
      have hnone := h.bundle (by simp [hpc])
      refine { h with
        called := ?_, bundle := fun _ => hnone, begun := le_rfl
        finished := fun hdone => by cases hpc'.symm.trans hdone
        collected := fun _ => ⟨hindex.ge, fun _ => ?_, fun rest hsome => ?_⟩
        userData := h.userData, errors := h.errors }
      · intro hbusy
        rw [session, hcalc] at hbusy
        exact absurd trivial hbusy
      · dsimp only [minute]
        rw [hindex, List.drop_length]
        exact IterationData.collects_nil ..
      · cases hnone.symm.trans hsome
  | @nextSecond announcer hpc hbundle hpc' hindex =>
      obtain ⟨hle, -, hwithin⟩ := h.collected (.inl hpc)
      have hcollects := hwithin [] hbundle
      have hcalm := h.calm fun hcalled => by cases hpc.symm.trans hcalled
      refine { h with
        called := fun hbusy => absurd hcalm hbusy, bundle := fun _ => rfl
        collected := fun _ => ⟨?_, fun _ => ?_, nofun⟩
        finished := fun hdone => by cases hpc'.symm.trans hdone
        userData := h.userData, errors := h.errors }
      all_goals
        dsimp only
        rw [hindex]
      · exact hle.trans (Nat.le_succ _)
      · rw [List.append_nil] at hcollects
        exact hcollects
  | @ends announcer hpc hbundle hover hpc' hindex =>
      obtain ⟨hle, hbetween, hwithin⟩ := h.collected (.inl hpc)
      have hcalm := h.calm fun hcalled => by cases hpc.symm.trans hcalled
      refine { h with
        called := fun hbusy => absurd hcalm hbusy, bundle := fun _ => rfl
        collected := fun _ => ⟨hindex ▸ hle, fun _ => ?_, nofun⟩
        finished := fun _ => hindex ▸ hover
        userData := h.userData, errors := h.errors }
      dsimp only
      rw [hindex]
      rcases hbundle with hbundle | ⟨hbundle, hover⟩
      · exact hbetween hbundle
      · have hcollects := hwithin [] hbundle
        rw [List.append_nil] at hcollects
        exact hcollects.minute_over hover
  | @outside announcer hpc hpc' =>
      have hnone := h.bundle fun hpc₀ => hpc (by simp [hpc₀])
      have hcalm := h.calm fun hcalled => absurd (by simp [hcalled]) hpc
      refine { h with
        called := fun hbusy => absurd hcalm hbusy, bundle := fun _ => hnone
        collected := ?_
        finished := fun hin => absurd (show announcer.pc ∈ _ by rw [hin]; simp) hpc'
        userData := h.userData, errors := h.errors }
      rintro (hin | hin) <;>
        exact absurd (show announcer.pc ∈ _ by rw [hin]; simp) hpc'

/-- **The calculator** works a batch in, or does nothing to the data. -/
theorem Maintained.calculates (h : s.Maintained) (hs : s.Calculates s') :
    s'.Maintained := by
  obtain ⟨hcalled, announcer, live, hlive, rfl, hpc', -⟩ := hs
  obtain ⟨hrec, hdata⟩ := LiveSession.step_calculator hlive
  obtain ⟨hbuffers, hbatch⟩ :=
    Session.fits_step (a := .calculator) h.buffers h.batch nofun hrec
  have hnone := h.bundle (by rcases hcalled with h | h <;> simp [h])
  have hcollected : ∀ s' : AnnouncingSession dm n, s'.announcer = announcer →
      s'.announcer.pc = .announcing ∨ s'.announcer.pc = .minuteDone →
      s'.Collected := by
    rintro s' rfl (hin | hin) <;> cases hpc'.symm.trans hin
  have hover : ∀ {P : Prop}, announcer.pc = .minuteDone → P :=
    fun hin => by cases hpc'.symm.trans hin
  rcases hdata with ⟨hdata, hnothing⟩ | ⟨taken, c, hcalc, hc, hlive'⟩
  · rw [hnothing, List.append_nil]
    refine ⟨hbuffers, hbatch, fun _ => hpc', ?_, fun _ => hnone, h.begun,
      hcollected _ rfl, hover, ?_, ?_, h.aboutUsers⟩
    · rw [tables, hdata.userData, hdata.iterationData]
      exact h.settled
    · exact h.userData.congr (fun _ => rfl) hdata.userDataQueue
        hdata.userDataIndex
    · exact h.errors.congr (fun _ => rfl) hdata.errorQueue hdata.errorIndex
  · -- the batch is worked in
    have hreported : s.live.reportedErrors = (RatingCalculatorImpl.create
        s.tables s.live.iterationData s.session.batch
        s.live.jobQueue).reportedErrors := by
      unfold LiveSession.reportedErrors
      rw [hcalc]
    have hqueue := RatingCalculatorImpl.jobQueue_eq
      (s := .create s.tables s.live.iterationData s.session.batch
        s.live.jobQueue) h.settled.consistent.disjoint h.batch.seconds hc
    have huserData : ∀ w, (c.jobQueue.queues w).userDataQueue =
        (s.queue w).userDataQueue := fun w =>
      RatingCalculatorImpl.jobQueue_recalculate
        (f := fun q => (q.queues w).userDataQueue)
        (fun q error => JobQueue.userDataQueue_enqueueErrorJob q error w) hc
    have hindex : c.jobQueue.userDataIndex = s.live.jobQueue.userDataIndex :=
      RatingCalculatorImpl.jobQueue_recalculate (f := (·.userDataIndex))
        (fun _ _ => rfl) hc
    have hsettled := h.settled.recalculate h.batch hc
    rw [hreported]
    obtain ⟨hd, hit, hq⟩ : live.userData = c.userData ∧
        live.iterationData = c.iterationData ∧ live.jobQueue = c.jobQueue := by
      rw [hlive']
      exact ⟨rfl, rfl, rfl⟩
    refine ⟨hbuffers, hbatch, fun _ => hpc', ?_, fun _ => hnone, h.begun,
      hcollected _ rfl, hover, ?_, ?_, ?_⟩
    · rw [tables, hd, hit]
      exact hsettled
    · refine h.userData.congr (fun _ => rfl) (fun w => ?_) ?_
      · rw [queue, hq]
        exact huserData w
      · rw [hq]
        exact hindex
    · refine (JobQueue.dealt_enqueueErrorJob _ h.errors).congr (fun _ => rfl)
        (fun w => ?_) ?_
      · rw [queue, hq, hqueue]
        rfl
      · rw [hq, hqueue]
        rfl
    · intro e he
      rcases List.mem_append.mp he with he | he
      · exact h.aboutUsers e he
      · exact RatingCalculatorImpl.reportedErrors_aboutUser _ e he

/-- A worker takes a job: it is at the front of the queue of its kind. -/
theorem Takes.queues {q q' : JobQueue n} {w : Fin n} {job : WorkerJob}
    (h : Takes q w job q') :
    (∀ w', (q.queues w').userDataQueue =
      if w' = w then job.userData?.toList ++ (q'.queues w').userDataQueue
      else (q'.queues w').userDataQueue) ∧
    (∀ w', (q.queues w').errorQueue =
      if w' = w then job.error?.toList ++ (q'.queues w').errorQueue
      else (q'.queues w').errorQueue) ∧
    q'.userDataIndex = q.userDataIndex ∧ q'.errorIndex = q.errorIndex := by
  cases job with
  | error e =>
      obtain ⟨rest, hqueue, rfl⟩ := JobQueue.dequeueError_some h
      refine ⟨fun w' => ?_, fun w' => ?_, rfl, rfl⟩
      all_goals
        dsimp only
        by_cases hw : w' = w
        · subst hw
          simp [WorkerJob.userData?, WorkerJob.error?, hqueue]
        · rw [if_neg hw, Function.update_of_ne hw]
  | userIdPromise promise =>
      obtain ⟨-, rfl⟩ := h
      exact ⟨fun w' => (ite_self _).symm, fun w' => (ite_self _).symm, rfl, rfl⟩
  | userData p =>
      obtain ⟨rest, hqueue, rfl⟩ := JobQueue.dequeueUserData_some h
      refine ⟨fun w' => ?_, fun w' => ?_, rfl, rfl⟩
      all_goals
        dsimp only
        by_cases hw : w' = w
        · subst hw
          simp [WorkerJob.userData?, WorkerJob.error?, hqueue]
        · rw [if_neg hw, Function.update_of_ne hw]

theorem filterMap_serve {β : Type} (kind : WorkerJob → Option β)
    (s : AnnouncingSession dm n) (w w' : Fin n) (job : WorkerJob) :
    ((s.serve w job).served w').filterMap (kind ·.job) =
      if w' = w then
        (s.served w').filterMap (kind ·.job) ++ (kind job).toList
      else (s.served w').filterMap (kind ·.job) := by
  dsimp only [serve]
  by_cases hw : w' = w
  · rw [if_pos hw, hw, Function.update_self, List.filterMap_append]
    cases hkind : kind job <;> simp [hkind]
  · rw [if_neg hw, Function.update_of_ne hw]

theorem Maintained.serve (h : s.Maintained) {w : Fin n} {job : WorkerJob}
    {jobQueue : JobQueue n} (htakes : Takes s.live.jobQueue w job jobQueue) :
    (({ s with live := { s.live with jobQueue } } :
      AnnouncingSession dm n).serve w job).Maintained := by
  obtain ⟨huserData, herrors, huserDataIndex, herrorIndex⟩ := htakes.queues
  have hpointers := (h.userData.take
    (filterMap_serve WorkerJob.userData? s w · job) huserData)
  have htaken := (h.errors.take
    (filterMap_serve WorkerJob.error? s w · job) herrors)
  refine ⟨h.buffers, h.batch, h.called, h.settled, h.bundle, h.begun,
    fun hpc => ?_, h.finished,
    hpointers.congr (fun _ => rfl) (fun _ => rfl) huserDataIndex,
    htaken.congr (fun _ => rfl) (fun _ => rfl) herrorIndex, h.aboutUsers⟩
  obtain ⟨hle, hbetween, hwithin⟩ := h.collected hpc
  exact ⟨hle, hbetween, hwithin⟩

/-- **One step.** -/
theorem Maintained.step {a : AnnouncingStep dm n} (h : s.Maintained)
    (hs : s.step a = some s') : s'.Maintained := by
  have hthread : ∀ {a : SessionStep dm n} {s s' : AnnouncingSession dm n},
      s.Maintained → s.thread ⟨a, false⟩ = some s' → a ≠ .calculator →
      (∀ second msg, a = .dispatch second msg → msg.NameFits) →
      s'.Maintained := by
    intro a s s' h hs ha hmsg
    obtain ⟨live, hlive, rfl⟩ := thread_cases hs
    exact h.thread hlive ha hmsg (.inl rfl)
  cases a with
  | listener now =>
      rw [AnnouncingSession.step] at hs
      split at hs
      · next hpc =>
        obtain ⟨s₁, htick, hlisten⟩ := Option.bind_eq_some_iff.mp hs
        obtain ⟨announcer, hannouncer, rfl⟩ := tick_cases htick
        obtain ⟨live, hlive, rfl⟩ := thread_cases hlisten
        obtain ⟨hrun, -⟩ := LiveSession.step_frame (by simp) hlive
        obtain ⟨-, hstart⟩ := Option.ite_none_right_eq_some.mp hannouncer
        obtain ⟨hidle, hstart⟩ := Option.ite_none_right_eq_some.mp hstart
        refine h.thread hlive (by simp) (fun _ _ h => by cases h)
          (.inr ⟨h.bundle ?_, ?_, ?_⟩)
        · intro hannouncing
          cases hannouncing.symm.trans hidle
        · simp only [Session.step, Session.run, hpc, Option.some.injEq] at hrun
          rw [← hrun]
          exact trivial
        · cases hstart
          simp
      · exact hthread h hs (by simp) (fun _ _ h => by cases h)
  | dispatch second msg =>
      refine hthread h hs (by simp) ?_
      rintro _ _ ⟨⟩
      exact msg.2
  | listenerThrows => exact hthread h hs (by simp) (fun _ _ h => by cases h)
  | signalError => exact hthread h hs (by simp) (fun _ _ h => by cases h)
  | announcer now order =>
      rcases doWork_cases hs with ⟨p, rest, hpc, hbundle, rfl⟩ |
        ⟨second, hsecond, hpc, hbundle, horder, rfl⟩ | hcalculates | hticks |
        ⟨announcer, live, hlive, hpc, hpc', rfl⟩
      · exact h.announce hpc hbundle
      · exact h.load hsecond hpc hbundle horder
      · exact h.calculates hcalculates
      · exact h.ticks hticks
      · obtain ⟨hstop, -⟩ := LiveSession.step_frame (by simp) hlive
        obtain ⟨-, hstop⟩ := Option.ite_none_right_eq_some.mp hstop
        refine h.thread hlive (by simp) (fun _ _ h => by cases h)
          (.inr ⟨h.bundle (by simp [hpc]), ?_, hpc'⟩)
        rw [← Option.some.inj hstop]
        exact trivial
  | worker w action =>
      obtain ⟨s₁, hwork, hs⟩ := Option.bind_eq_some_iff.mp hs
      refine hthread ?_ hs (by simp) (fun _ _ h => by cases h)
      rcases work_cases hwork with ⟨rfl, -, -⟩ | ⟨-, -, rfl⟩ |
        ⟨-, -, job, jobQueue, htakes, rfl⟩
      · exact h
      · exact { h with
          collected := fun hpc =>
            { h.collected hpc with
              between := (h.collected hpc).between
              within := (h.collected hpc).within }
          userData := h.userData, errors := h.errors }
      · exact h.serve htakes

theorem maintained (hreach : (machine dm n).Reachable s) : s.Maintained := by
  obtain ⟨steps, hrun⟩ := hreach
  apply hrun.invariant
  · exact fun s hs => maintained_init hs
  · exact fun s a s' h _ hs => h.step hs

/-! ## §5  Runs -/

/-- **Every job comes to one worker**, errors and pointers alike: the job at a
place is taken by the worker whose turn it was, after those he was given
before, or it waits for him; no job is lost, and none comes twice. -/
theorem jobs_delivered (hreach : (machine dm n).Reachable s) :
    (∀ w k, (s.pointers w ++ (s.queue w).userDataQueue)[k]? =
      s.announced[w.val + k * n]?) ∧
    ∑ w, ((s.pointers w : Multiset UserRef) + (s.queue w).userDataQueue) =
      (s.announced : Multiset UserRef) ∧
    (∀ w k, (s.errors w ++ (s.queue w).errorQueue)[k]? =
      s.reported[w.val + k * n]?) ∧
    ∑ w, ((s.errors w : Multiset GenericProtocolError) +
        (s.queue w).errorQueue) =
      (s.reported : Multiset GenericProtocolError) := by
  have h := maintained hreach
  exact ⟨h.userData.getElem?, h.userData.sum, h.errors.getElem?, h.errors.sum⟩

/-- **A minute of the announcer**: when its loop is through, it has enqueued
the users connected at the seconds it went through, each of them once and
nobody else; and it has gone through the rest of the minute unless an error was
signalled. -/
theorem minute_announced (hreach : (machine dm n).Reachable s)
    (hpc : s.announcer.pc = .minuteDone) :
    s.minute.Nodup ∧
    (∀ p, p ∈ s.minute ↔ ∃ second : Fin 60, s.firstSecond ≤ second.val ∧
      second.val < s.announcer.chronoSetIndex ∧
      s.tables.ConnectedAt second p) ∧
    (s.announcer.chronoSetIndex = 60 ∨ s.session.sync.badFlag = true) := by
  have h := maintained hreach
  obtain ⟨hnodup, hmem⟩ := (h.collected (.inr hpc)).between
    (h.bundle (by simp [hpc]))
  refine ⟨hnodup, fun p => ?_, ?_⟩
  · simp only [hmem, h.settled.consistent.buckets]
  · have hle := Announcer.chronoSetIndex_le (announcer_reachable hreach)
    rcases Nat.lt_or_ge s.announcer.chronoSetIndex 60 with hlt | hge
    · exact .inr (h.finished hpc hlt)
    · exact .inl (le_antisymm hle hge)

/-! ### Three users, connected at the last second of the minute -/

def firstMessages (id : IdT) : List (Fin 60 × BuiltMessage .lp64) :=
  [(0, ⟨.registered ⟨⟨id⟩, []⟩, Nat.zero_le _⟩), (59, ⟨.connected ⟨id⟩, trivial⟩),
    (59, ⟨.dealWon ⟨⟨id⟩, 10⟩, trivial⟩)]

def firstBatch : IncomingDataBuffer .lp64 :=
  ([1, 2, 3].flatMap firstMessages).foldl
    (fun batch msg => batch.record msg.1 msg.2.val) {}

def threeConnected : CoreRatingData .lp64 × IterationData :=
  match (RatingCalculatorImpl.create {} {} firstBatch twoWorkers).recalculate
      false with
  | .ok c => (c.userData, c.iterationData)
  | .error _ => ({}, {})

theorem threeConnected_settled :
    Settled threeConnected.1 threeConnected.2 := by
  have hbatch : firstBatch.Fits := by
    rw [firstBatch]
    generalize [1, 2, 3].flatMap firstMessages = messages
    induction messages using List.reverseRecOn with
    | nil => exact IncomingDataBuffer.fits_empty
    | append_singleton messages msg ih =>
        rw [List.foldl_append]
        exact ih.record msg.1 msg.2.property
  unfold threeConnected
  split
  · next c hc => exact settled_empty.recalculate hbatch hc
  · exact settled_empty

open Announcer DateTime

/-- The session starts in the last second of a week. -/
def lastSecond : AnnouncingSession .lp64 2 :=
  start 0 twoWorkers threeConnected.1 threeConnected.2
    { clock := sundayNight + seconds 4 }

theorem init_lastSecond : (machine .lp64 2).init lastSecond :=
  ⟨0, Nat.two_pos, 0, _, _, _, threeConnected_settled, ⟨[], .init ⟨_, rfl⟩⟩,
    rfl, rfl⟩

section Schedules

/-! The schedules' pieces, with the second of the clock. -/

variable (k : ℕ) (second : ℤ)

def works (w : Fin 2) : List (AnnouncingStep .lp64 2) :=
  List.replicate k (.worker w .proceed)

def serves (w : Fin 2) : List (AnnouncingStep .lp64 2) :=
  List.replicate k (.worker w .job)

def announces : List (AnnouncingStep .lp64 2) :=
  List.replicate k (.announcer (sundayNight + seconds second) [])

def listens : List (AnnouncingStep .lp64 2) :=
  List.replicate k (.listener (sundayNight + seconds second))

def bucket : List UserRef := [⟨1, 1⟩, ⟨2, 2⟩, ⟨3, 3⟩]

def announcesUsers : List (AnnouncingStep .lp64 2) :=
  .announcer (sundayNight + seconds second) bucket :: announces 3 second

def renames (id : IdT) : List (AnnouncingStep .lp64 2) :=
  [.dispatch 0 ⟨.renamed ⟨⟨id⟩, []⟩, Nat.zero_le _⟩]

def exchanges : List (AnnouncingStep .lp64 2) :=
  announces 2 second ++ listens 6 second ++ renames 1 ++ announces 1 second

end Schedules

def untilStarted : List (AnnouncingStep .lp64 2) :=
  listens 7 4 ++ works 1 0 ++ works 1 1

def untilUnrecognized : List (AnnouncingStep .lp64 2) :=
  untilStarted ++ [7, 8, 9].flatMap fun id => listens 3 4 ++ renames id

def untilAsleep : List (AnnouncingStep .lp64 2) :=
  untilUnrecognized ++ announces 2 4 ++ exchanges 4 ++ works 6 0 ++
    works 6 1 ++ announces 14 4

/-- The users are announced, the minute is over, and the first worker has taken
one of his errors. -/
def untilAnnounced : List (AnnouncingStep .lp64 2) :=
  untilAsleep ++ announcesUsers 4 ++ announces 2 4 ++ works 6 0 ++
    serves 1 0

theorem untilAnnounced_minute :
    ∃ s, (machine .lp64 2).schedule lastSecond untilAnnounced = some s ∧
      s.minute = bucket ∧ s.minute.Nodup ∧
      ∀ p ∈ bucket, ∃ second, s.tables.ConnectedAt second p := by
  have hrun : ((machine .lp64 2).schedule lastSecond untilAnnounced).map
      (fun s => (s.announcer.pc, s.minute)) = some (.minuteDone, bucket) := by
    decide +kernel
  obtain ⟨s, hs, hpair⟩ := Option.map_eq_some_iff.mp hrun
  obtain ⟨hpc, hminute⟩ := Prod.mk.inj hpair
  obtain ⟨hnodup, hmem, -⟩ := minute_announced
    (Machine.reachable_of_schedule _ init_lastSecond hs) hpc
  refine ⟨s, hs, hminute, hnodup, fun p hp => ?_⟩
  obtain ⟨second, -, -, hat⟩ := (hmem p).mp (hminute ▸ hp)
  exact ⟨second, hat⟩

theorem untilAnnounced_delivered :
    ∃ s, (machine .lp64 2).schedule lastSecond untilAnnounced = some s ∧
      s.announced = bucket ∧
      s.reported = [.userUnrecognized 7, .userUnrecognized 8,
        .userUnrecognized 9] ∧
      s.errors 0 = [.userUnrecognized 7] ∧
      (s.errors 0 ++ (s.queue 0).errorQueue)[1]? =
        some (.userUnrecognized 9) ∧
      (s.errors 1 ++ (s.queue 1).errorQueue)[0]? =
        some (.userUnrecognized 8) ∧
      (s.pointers 1 ++ (s.queue 1).userDataQueue)[0]? = some ⟨2, 2⟩ := by
  have hrun : ((machine .lp64 2).schedule lastSecond untilAnnounced).map
      (fun s => (s.announced, s.reported, s.errors 0)) =
      some (bucket, [.userUnrecognized 7, .userUnrecognized 8,
        .userUnrecognized 9], [.userUnrecognized 7]) := by
    decide +kernel
  obtain ⟨s, hs, hjobs⟩ := Option.map_eq_some_iff.mp hrun
  obtain ⟨hannounced, hreported, htaken⟩ := Prod.mk.inj hjobs |>.imp_right
    Prod.mk.inj
  obtain ⟨hpointers, -, herrors, -⟩ :=
    jobs_delivered (Machine.reachable_of_schedule _ init_lastSecond hs)
  refine ⟨s, hs, hannounced, hreported, htaken, ?_, ?_, ?_⟩
  · rw [herrors 0 1, hreported]
    rfl
  · rw [herrors 1 0, hreported]
    rfl
  · rw [hpointers 1 0, hannounced]
    rfl

end AnnouncingSession

end RatingService
