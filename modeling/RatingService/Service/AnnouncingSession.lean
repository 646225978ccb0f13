import RatingService.Ipc.ClientStream
import RatingService.Service.RecognizedUsers
import RatingService.Service.ReportedErrors
import RatingService.Service.WeeklyReset
import RatingService.Service.WorkerJobs

/-!
# A session that announces

The whole of a session: its threads with their tables and queues, the
announcer's loop (`RatingAnnouncer::doWork` with `announce`) around the
calculator, and what the workers make of their jobs. A pointer the announcer
takes out of a bucket is in a queue until a worker looks through it, and a
worker's buffer holds a part of the rating it was filled from.

- §1: the state.
- §2: the announcer.
- §3: a worker.
- §4: the machine.
- §5: its parts are runs of their own.
-/

namespace RatingService

open Runs

variable {dm : DataModel} {n : ℕ}

/-! ## §1  The state -/

/-- A job a worker has taken, and what he made of it. -/
structure ServedJob (dm : DataModel) where
  job : WorkerJob
  /-- the tables he looked into -/
  tables : CoreRatingData dm
  frame : Outcome BufferT

structure AnnouncingSession (dm : DataModel) (n : ℕ) where
  live : LiveSession dm n
  announcer : Announcer
  /-- in `announce`: what the loop over `userBundle` has before it -/
  userBundle : Option (List UserRef) := none
  /-- an error has nothing defined behind it -/
  buffers : Fin n → Outcome WorkerBuffers := fun _ => .ok {}
  /-- a ghost: the pointers `announce` has enqueued -/
  announced : List UserRef := []
  /-- a ghost: how many of them before the present minute -/
  minuteStart : ℕ := 0
  /-- a ghost: the second at which the present minute began -/
  firstSecond : ℕ := 0
  /-- a ghost: the errors that the recalculations have enqueued -/
  reported : List GenericProtocolError := []
  /-- a ghost -/
  served : Fin n → List (ServedJob dm) := fun _ => []

/-- A message as `MessageBuilder` makes it: one byte counts a name's bytes. -/
abbrev BuiltMessage (dm : DataModel) :=
  { msg : ClientMessage dm // msg.NameFits }

inductive AnnouncingStep (dm : DataModel) (n : ℕ) where
  /-- `now` is what a thread that starts finds on the clock -/
  | listener (now : ℤ)
  | dispatch (second : Fin 60) (msg : BuiltMessage dm)
  | listenerThrows
  /-- the announcer's thread, in `recalculate` as well; `order` is the order
  in which `announce` meets the pointers of a bucket -/
  | announcer (now : ℤ) (order : List UserRef)
  | worker (w : Fin n) (action : WorkerAction)
  | signalError

/-- What the recalculation reports if the batch is worked in at this step. -/
def LiveSession.reportedErrors (l : LiveSession dm n) :
    List GenericProtocolError :=
  match l.session.calculator with
  | .clearing _ .deals => (RatingCalculatorImpl.create l.userData
      l.iterationData l.session.batch l.jobQueue).reportedErrors
  | _ => []

namespace AnnouncingSession

variable {s s' : AnnouncingSession dm n}

abbrev session (s : AnnouncingSession dm n) : Session dm n := s.live.session

abbrev tables (s : AnnouncingSession dm n) : CoreRatingData dm :=
  s.live.userData

abbrev queue (s : AnnouncingSession dm n) (w : Fin n) : QueuePack :=
  s.live.jobQueue.queues w

/-- A step of the threads that leaves buffers and announcer alone. -/
def thread (s : AnnouncingSession dm n) (a : LiveStep dm n) :
    Option (AnnouncingSession dm n) :=
  (s.live.step a).map fun live => { s with live }

/-! ## §2  The announcer -/

def tick (s : AnnouncingSession dm n) (a : AnnouncerStep) (now : ℤ) :
    Option (AnnouncingSession dm n) :=
  (s.announcer.step (a, now)).map fun announcer => { s with announcer }

/-- `RatingAnnouncer::announce`, one turn of its loop. -/
def announce (s : AnnouncingSession dm n) (userData : UserRef)
    (rest : List UserRef) : AnnouncingSession dm n :=
  { s with
    live := { s.live with
      jobQueue := s.live.jobQueue.enqueueUserData userData }
    userBundle := some rest
    announced := s.announced ++ [userData] }

def Enumerates (order : List UserRef) (bundle : Finset UserRef) : Prop :=
  order.Nodup ∧ order.toFinset = bundle

instance (order : List UserRef) (bundle : Finset UserRef) :
    Decidable (Enumerates order bundle) :=
  inferInstanceAs (Decidable (_ ∧ _))

/-- A step of `RatingCalculator::recalculate`, called by the announcer. -/
def calculate (s : AnnouncingSession dm n) : Option (AnnouncingSession dm n) :=
  (s.thread ⟨.calculator, s.announcer.dropOldRating⟩).map fun s' =>
    { s' with reported := s.reported ++ s.live.reportedErrors }

/-- `RatingAnnouncer::doWork`, one step; the calls of `recalculate` and
`announce` are taken apart. -/
def doWork (s : AnnouncingSession dm n) (now : ℤ) (order : List UserRef) :
    Option (AnnouncingSession dm n) :=
  match s.announcer.pc with
  | .recalculating => do
      -- the call
      let s' ← s.tick (.doWork false) now
      s'.calculate
  | .recalculated =>
      if s.session.calculator = .announcing then
        { s with
          minuteStart := s.announced.length
          firstSecond := s.announcer.chronoSetIndex }.tick (.doWork false) now
      else s.calculate
  | .announcing =>
      match s.userBundle with
      | some (userData :: rest) => some (s.announce userData rest)
      | some [] => { s with userBundle := none }.tick (.doWork false) now
      | none =>
          if h : s.announcer.chronoSetIndex < 60 ∧
              s.session.sync.badFlag = false then
            if Enumerates order
                (s.live.iterationData.usersOnline ⟨_, h.1⟩) then
              some { s with userBundle := some order }
            else none
          else s.tick (.doWork s.session.sync.badFlag) now
  | .minuteDone =>
      if s.announcer.chronoSetIndex ≠ 60 then do
        let s' ← s.tick (.doWork false) now
        s'.thread ⟨.announcerStops, false⟩
      else s.tick (.doWork false) now
  | .starting | .syncing | .resyncing | .checking => s.tick (.doWork false) now
  | .idle | .failed => none

/-! ## §3  A worker -/

def serve (s : AnnouncingSession dm n) (w : Fin n) (job : WorkerJob) :
    AnnouncingSession dm n :=
  let result := s.buffers w >>= fun b => b.process s.tables job
  { s with
    buffers := Function.update s.buffers w (result.map Prod.snd)
    served := Function.update s.served w (s.served w ++
      [{ job, tables := s.tables, frame := result.map Prod.fst }]) }

/-- The loop over the errors: its condition, and its body unless the loop
ends. -/
def drainErrors (s : AnnouncingSession dm n) (w : Fin n)
    (action : WorkerAction) : Option (AnnouncingSession dm n) :=
  match s.live.jobQueue.dequeueError w, action with
  | (none, _), .proceed => some s
  | (some error, jobQueue), .job | (some error, jobQueue), .throws =>
      some ({ s with live := { s.live with jobQueue } }.serve w (.error error))
  | _, _ => none

/-- `depleteUserDataMessages`, likewise. -/
def depleteUserDataMessages (s : AnnouncingSession dm n) (w : Fin n)
    (action : WorkerAction) : Option (AnnouncingSession dm n) :=
  match s.live.jobQueue.dequeueUserData w, action with
  | (none, _), .proceed => some s
  | (some userData, jobQueue), .job | (some userData, jobQueue), .throws =>
      some ({ s with live := { s.live with jobQueue } }.serve w
        (.userData userData))
  | _, _ => none

/-- What a step of a worker does to buffers and queues. A promise is taken from
its queue by the step of the threads. -/
def work (s : AnnouncingSession dm n) (w : Fin n) (action : WorkerAction) :
    Option (AnnouncingSession dm n) :=
  match s.session.workers w with
  | .starting | .caching =>
      if action = .proceed then some { s with
        buffers := Function.update s.buffers w
          (s.buffers w >>= fun b => b.cache s.tables) }
      else some s
  | .errors => s.drainErrors w action
  | .promises =>
      if action = .proceed then some s
      else some (s.serve w (.userIdPromise
        (s.live.jobQueue.dequeueUserIdPromise w).1))
  | .depleting | .userData => s.depleteUserDataMessages w action
  | _ => some s

/-! ## §4  The machine -/

def step (s : AnnouncingSession dm n) :
    AnnouncingStep dm n → Option (AnnouncingSession dm n)
  | .listener now =>
      if s.session.listener.pc = .startingAnnouncer then do
        let s' ← s.tick .start now
        s'.thread ⟨.listener, false⟩
      else s.thread ⟨.listener, false⟩
  | .dispatch second msg => s.thread ⟨.dispatch second msg.val, false⟩
  | .listenerThrows => s.thread ⟨.listenerThrows, false⟩
  | .announcer now order => s.doWork now order
  | .worker w action => do
      let s' ← s.work w action
      s'.thread ⟨.worker w action, false⟩
  | .signalError => s.thread ⟨.signalError, false⟩

end AnnouncingSession

/-- **What the recalculations of a session leave to the next.** -/
structure Settled (d : CoreRatingData dm) (it : IterationData) : Prop where
  consistent : Consistent d it
  integrity : d.RatingIntegrity
  names : d.NamesFit
  size : d.rating.length < 2 ^ 31

namespace AnnouncingSession

/-- A session begins with new queues and workers. Only the thread of the
listener is older, and with it the index of the promises. -/
def start (count : ℤ) (jobQueue : JobQueue n) (d : CoreRatingData dm)
    (it : IterationData) (announcer : Announcer) : AnnouncingSession dm n :=
  { live :=
      { session := .start dm n count, jobQueue, userData := d
        iterationData := it }
    announcer }

def machine (dm : DataModel) (n : ℕ) :
    Machine (AnnouncingSession dm n) (AnnouncingStep dm n) where
  init s := ∃ (count : ℤ) (h : 0 < n) (promiseIndex : Fin n)
    (d : CoreRatingData dm) (it : IterationData) (announcer : Announcer),
      Settled d it ∧ Announcer.machine.Reachable announcer ∧
      announcer.pc = .idle ∧
      s = start count { JobQueue.create h with promiseIndex } d it announcer
  step := step

end AnnouncingSession

/-! ## §5  Its parts -/

namespace Announcer

variable {s s' : Announcer} {badFlag : Bool}

theorem step_doWork {now : ℤ}
    (hs : s.step (.doWork badFlag, now) = some s') :
    match s.pc with
    | .recalculating =>
        s'.pc = .recalculated ∧ s'.dropOldRating = s.dropOldRating
    | .recalculated =>
        s'.pc = .announcing ∧ s'.chronoSetIndex = s.chronoSetIndex
    | .announcing =>
        if s.chronoSetIndex < 60 ∧ badFlag = false then
          s'.pc = .announcing ∧ s'.chronoSetIndex = s.chronoSetIndex + 1
        else s'.pc = .minuteDone ∧ s'.chronoSetIndex = s.chronoSetIndex
    | _ => s'.pc ∉ [.recalculated, .announcing, .minuteDone] := by
  obtain ⟨-, hs⟩ := Option.ite_none_right_eq_some.mp hs
  cases hpc : s.pc
  all_goals simp only [doWork, hpc, reduceCtorEq] at hs ⊢
  case announcing =>
    split at hs <;> cases hs
    · next hlt =>
      rw [if_pos hlt]
      exact ⟨rfl, rfl⟩
    · next hge =>
      rw [if_neg hge]
      exact ⟨rfl, rfl⟩
  all_goals try split at hs
  all_goals try split at hs
  all_goals
    cases hs
    simp [setExpirationDate]

end Announcer

namespace AnnouncingSession

variable {s s' : AnnouncingSession dm n}

theorem thread_cases {a : LiveStep dm n} (hs : s.thread a = some s') :
    ∃ live, s.live.step a = some live ∧ s' = { s with live } := by
  obtain ⟨live, hlive, rfl⟩ := Option.map_eq_some_iff.mp hs
  exact ⟨live, hlive, rfl⟩

theorem tick_cases {a : AnnouncerStep} {now : ℤ} (hs : s.tick a now = some s') :
    ∃ announcer, s.announcer.step (a, now) = some announcer ∧
      s' = { s with announcer } := by
  obtain ⟨announcer, hannouncer, rfl⟩ := Option.map_eq_some_iff.mp hs
  exact ⟨announcer, hannouncer, rfl⟩

theorem calculate_cases (hs : s.calculate = some s') :
    ∃ live, s.live.step ⟨.calculator, s.announcer.dropOldRating⟩ = some live ∧
      s' = { s with
        live
        reported := s.reported ++ s.live.reportedErrors } := by
  obtain ⟨s₁, hthread, rfl⟩ := Option.map_eq_some_iff.mp hs
  obtain ⟨live, hlive, rfl⟩ := thread_cases hthread
  exact ⟨live, hlive, rfl⟩

/-- The announcer's steps that keep to his variables. -/
inductive Ticks (s : AnnouncingSession dm n) : AnnouncingSession dm n → Prop
  /-- `recalculate` has returned -/
  | begins {announcer : Announcer} (hpc : s.announcer.pc = .recalculated)
      (hcalc : s.session.calculator = .announcing)
      (hpc' : announcer.pc = .announcing)
      (hindex : announcer.chronoSetIndex = s.announcer.chronoSetIndex) :
      s.Ticks { s with
        announcer
        minuteStart := s.announced.length
        firstSecond := s.announcer.chronoSetIndex }
  | nextSecond {announcer : Announcer} (hpc : s.announcer.pc = .announcing)
      (hbundle : s.userBundle = some []) (hpc' : announcer.pc = .announcing)
      (hindex : announcer.chronoSetIndex = s.announcer.chronoSetIndex + 1) :
      s.Ticks { s with announcer, userBundle := none }
  | ends {announcer : Announcer} (hpc : s.announcer.pc = .announcing)
      (hbundle : s.userBundle = none ∨
        s.userBundle = some [] ∧ ¬ s.announcer.chronoSetIndex < 60)
      (hover : s.announcer.chronoSetIndex < 60 →
        s.session.sync.badFlag = true)
      (hpc' : announcer.pc = .minuteDone)
      (hindex : announcer.chronoSetIndex = s.announcer.chronoSetIndex) :
      s.Ticks { s with announcer, userBundle := none }
  | outside {announcer : Announcer}
      (hpc : s.announcer.pc ∉ [.recalculating, .recalculated, .announcing])
      (hpc' : announcer.pc ∉ [.recalculated, .announcing, .minuteDone]) :
      s.Ticks { s with announcer }

/-- A step of the calculator, the first being the call. -/
structure Calculates (s s' : AnnouncingSession dm n) : Prop where
  called : s.announcer.pc = .recalculating ∨ s.announcer.pc = .recalculated
  calculator : ∃ announcer live,
    s.live.step ⟨.calculator, s.announcer.dropOldRating⟩ = some live ∧
    s' = { s with
      announcer, live
      reported := s.reported ++ s.live.reportedErrors } ∧
    announcer.pc = .recalculated ∧
    announcer.dropOldRating = s.announcer.dropOldRating

/-- **What a step of the announcer's thread can do.** -/
theorem doWork_cases {now : ℤ} {order : List UserRef}
    (hs : s.doWork now order = some s') :
    (∃ userData rest, s.announcer.pc = .announcing ∧
      s.userBundle = some (userData :: rest) ∧
      s' = s.announce userData rest) ∨
    (∃ second : Fin 60, second.val = s.announcer.chronoSetIndex ∧
      s.announcer.pc = .announcing ∧ s.userBundle = none ∧
      Enumerates order (s.live.iterationData.usersOnline second) ∧
      s' = { s with userBundle := some order }) ∨
    s.Calculates s' ∨
    s.Ticks s' ∨
    (∃ announcer live, s.live.step ⟨.announcerStops, false⟩ = some live ∧
      s.announcer.pc = .minuteDone ∧
      announcer.pc ∉ [.recalculated, .announcing, .minuteDone] ∧
      s' = { s with announcer, live }) := by
  have houtside : s.announcer.pc ∉ [.recalculating, .recalculated, .announcing] →
      s.tick (.doWork false) now = some s' → s.Ticks s' := by
    intro hpc htick
    obtain ⟨announcer, hannouncer, rfl⟩ := tick_cases htick
    have hafter := Announcer.step_doWork hannouncer
    cases hpc' : s.announcer.pc
    all_goals rw [hpc'] at hpc hafter
    all_goals first
      | exact .outside (hpc'.symm ▸ hpc) hafter
      | exact absurd (by simp) hpc
  unfold doWork at hs
  cases hpc : s.announcer.pc
  all_goals simp only [hpc, reduceCtorEq] at hs
  case recalculating =>
    obtain ⟨s₁, htick, hcalculate⟩ := Option.bind_eq_some_iff.mp hs
    obtain ⟨announcer, hannouncer, rfl⟩ := tick_cases htick
    obtain ⟨live, hlive, rfl⟩ := calculate_cases hcalculate
    have hcall := Announcer.step_doWork hannouncer
    rw [hpc] at hcall
    refine .inr (.inr (.inl ⟨.inl hpc, announcer, live, ?_, rfl, hcall⟩))
    rw [← hcall.2]
    exact hlive
  case recalculated =>
    split at hs
    · next hcalc =>
      obtain ⟨announcer, hannouncer, rfl⟩ := tick_cases hs
      have hbegins := Announcer.step_doWork hannouncer
      rw [hpc] at hbegins
      exact .inr (.inr (.inr (.inl
        (.begins hpc hcalc hbegins.1 hbegins.2))))
    · obtain ⟨live, hlive, rfl⟩ := calculate_cases hs
      exact .inr (.inr (.inl ⟨.inr hpc, s.announcer, live, hlive, rfl, hpc,
        rfl⟩))
  case announcing =>
    split at hs
    · next userData rest hbundle =>
      cases hs
      exact .inl ⟨userData, rest, rfl, hbundle, rfl⟩
    · next hbundle =>
      obtain ⟨announcer, hannouncer, rfl⟩ := tick_cases hs
      have hafter := Announcer.step_doWork hannouncer
      rw [hpc] at hafter
      dsimp only at hafter
      split at hafter
      · exact .inr (.inr (.inr (.inl
          (.nextSecond hpc hbundle hafter.1 hafter.2))))
      · next hge =>
        have hover : ¬ s.announcer.chronoSetIndex < 60 :=
          fun hlt => hge ⟨hlt, rfl⟩
        exact .inr (.inr (.inr (.inl (.ends hpc (.inr ⟨hbundle, hover⟩)
          (fun hlt => absurd hlt hover) hafter.1 hafter.2))))
    · next hbundle =>
      split at hs
      · obtain ⟨henum, hs⟩ := Option.ite_none_right_eq_some.mp hs
        cases hs
        exact .inr (.inl ⟨_, rfl, rfl, hbundle, henum, rfl⟩)
      · next hge =>
        obtain ⟨announcer, hannouncer, rfl⟩ := tick_cases hs
        have hafter := Announcer.step_doWork hannouncer
        rw [hpc] at hafter
        dsimp only at hafter
        rw [if_neg hge] at hafter
        have hends := Ticks.ends hpc (.inl hbundle)
          (fun hlt => Bool.eq_true_of_not_eq_false fun hflag =>
            hge ⟨hlt, hflag⟩) hafter.1 hafter.2
        rw [← hbundle] at hends
        exact .inr (.inr (.inr (.inl hends)))
  case minuteDone =>
    split at hs
    · obtain ⟨s₁, htick, hthread⟩ := Option.bind_eq_some_iff.mp hs
      obtain ⟨announcer, hannouncer, rfl⟩ := tick_cases htick
      obtain ⟨live, hlive, rfl⟩ := thread_cases hthread
      have hafter := Announcer.step_doWork hannouncer
      rw [hpc] at hafter
      exact .inr (.inr (.inr (.inr ⟨announcer, live, hlive, rfl, hafter, rfl⟩)))
    · exact .inr (.inr (.inr (.inl (houtside (by simp [hpc]) hs))))
  all_goals exact .inr (.inr (.inr (.inl (houtside (by simp [hpc]) hs))))

/-- A worker's job leaves its queue; a promise is still to leave it. -/
def Takes (q : JobQueue n) (w : Fin n) : WorkerJob → JobQueue n → Prop
  | .error e, q' => q.dequeueError w = (some e, q')
  | .userIdPromise promise, q' =>
      promise = (q.dequeueUserIdPromise w).1 ∧ q' = q
  | .userData p, q' => q.dequeueUserData w = (some p, q')

/-- **What a step of a worker can do** to buffers and queues. -/
theorem work_cases {w : Fin n} {action : WorkerAction}
    (hs : s.work w action = some s') :
    (s' = s ∧
      (s.session.workers w = .depleting ∨ s.session.workers w = .userData →
        (s.queue w).userDataQueue = []) ∧
      (s.session.workers w = .starting ∨ s.session.workers w = .caching →
        action ≠ .proceed)) ∨
    ((s.session.workers w = .starting ∨ s.session.workers w = .caching) ∧
      action = .proceed ∧
      s' = { s with
        buffers := Function.update s.buffers w
          (s.buffers w >>= fun b => b.cache s.tables) }) ∨
    (s.session.workers w ∈ [.errors, .promises, .depleting, .userData] ∧
      action ≠ .proceed ∧
      ∃ job jobQueue, Takes s.live.jobQueue w job jobQueue ∧
        s' = { s with live := { s.live with jobQueue } }.serve w job) := by
  unfold work at hs
  cases hpc : s.session.workers w
  all_goals simp only [hpc] at hs
  case starting | caching =>
    split at hs <;> cases hs
    · next haction => exact .inr (.inl ⟨by simp, haction, rfl⟩)
    · next haction => exact .inl ⟨rfl, by simp, fun _ => haction⟩
  case errors =>
    unfold drainErrors at hs
    split at hs <;> cases hs
    · exact .inl ⟨rfl, by simp, by simp⟩
    · next hqueue =>
      exact .inr (.inr ⟨by simp, by simp, .error _, _, hqueue, rfl⟩)
    · next hqueue =>
      exact .inr (.inr ⟨by simp, by simp, .error _, _, hqueue, rfl⟩)
  case promises =>
    split at hs <;> cases hs
    · exact .inl ⟨rfl, by simp, by simp⟩
    · next haction =>
      exact .inr (.inr ⟨by simp, haction, .userIdPromise _, _, ⟨rfl, rfl⟩, rfl⟩)
  case depleting | userData =>
    unfold depleteUserDataMessages at hs
    split at hs <;> cases hs
    · next hqueue =>
      exact .inl ⟨rfl, fun _ => JobQueue.dequeueUserData_none hqueue, by simp⟩
    · next hqueue =>
      exact .inr (.inr ⟨by simp, by simp, .userData _, _, hqueue, rfl⟩)
    · next hqueue =>
      exact .inr (.inr ⟨by simp, by simp, .userData _, _, hqueue, rfl⟩)
  all_goals
    cases hs
    exact .inl ⟨rfl, by simp, by simp⟩

theorem announcer_step {a : AnnouncingStep dm n} (hs : s.step a = some s') :
    s'.announcer = s.announcer ∨
      ∃ a, s.announcer.step a = some s'.announcer := by
  have hthread : ∀ {a : LiveStep dm n} {s s' : AnnouncingSession dm n},
      s.thread a = some s' → s'.announcer = s.announcer := by
    intro a s s' hs
    obtain ⟨live, -, rfl⟩ := thread_cases hs
    rfl
  have htick : ∀ {a : AnnouncerStep} {now : ℤ} {s s' : AnnouncingSession dm n},
      s.tick a now = some s' → s.announcer.step (a, now) = some s'.announcer := by
    intro a now s s' hs
    obtain ⟨announcer, hannouncer, rfl⟩ := tick_cases hs
    exact hannouncer
  have hcalculate : ∀ {s s' : AnnouncingSession dm n},
      s.calculate = some s' → s'.announcer = s.announcer := by
    intro s s' hs
    obtain ⟨live, -, rfl⟩ := calculate_cases hs
    rfl
  cases a with
  | listener now =>
      rw [step] at hs
      split at hs
      · obtain ⟨s₁, hstart, hs⟩ := Option.bind_eq_some_iff.mp hs
        rw [hthread hs]
        exact .inr ⟨_, htick hstart⟩
      · exact .inl (hthread hs)
  | dispatch second msg => exact .inl (hthread hs)
  | listenerThrows => exact .inl (hthread hs)
  | signalError => exact .inl (hthread hs)
  | worker w action =>
      obtain ⟨s₁, hwork, hs⟩ := Option.bind_eq_some_iff.mp hs
      rw [hthread hs]
      rcases work_cases hwork with ⟨rfl, -, -⟩ | ⟨-, -, rfl⟩ |
        ⟨-, -, job, jobQueue, -, rfl⟩ <;> exact .inl rfl
  | announcer now order =>
      replace hs : s.doWork now order = some s' := hs
      unfold doWork at hs
      split at hs
      case h_1 =>
        obtain ⟨s₁, hcall, hs⟩ := Option.bind_eq_some_iff.mp hs
        rw [hcalculate hs]
        exact .inr ⟨_, htick hcall⟩
      case h_2 =>
        split at hs
        · have hbegins := htick hs
          exact .inr ⟨_, hbegins⟩
        · exact .inl (hcalculate hs)
      case h_3 =>
        split at hs
        · cases hs
          exact .inl rfl
        · have hnext := htick hs
          exact .inr ⟨_, hnext⟩
        · split at hs
          · obtain ⟨-, hs⟩ := Option.ite_none_right_eq_some.mp hs
            cases hs
            exact .inl rfl
          · exact .inr ⟨_, htick hs⟩
      case h_4 =>
        split at hs
        · obtain ⟨s₁, hdone, hs⟩ := Option.bind_eq_some_iff.mp hs
          rw [hthread hs]
          exact .inr ⟨_, htick hdone⟩
        · exact .inr ⟨_, htick hs⟩
      all_goals first
        | exact .inr ⟨_, htick hs⟩
        | cases hs

/-- **A session's announcer runs as the announcer alone does.** -/
theorem announcer_reachable (hreach : (machine dm n).Reachable s) :
    Announcer.machine.Reachable s.announcer := by
  obtain ⟨steps, hrun⟩ := hreach
  apply hrun.invariant
  · rintro _ ⟨count, h, promiseIndex, d, it, announcer, -, hannouncer, -, rfl⟩
    exact hannouncer
  · rintro s a s' ⟨steps, h⟩ - hs
    rcases announcer_step hs with hsame | ⟨a, hstep⟩
    · rw [hsame]
      exact ⟨steps, h⟩
    · exact ⟨_, .step h trivial hstep⟩

end AnnouncingSession

end RatingService
