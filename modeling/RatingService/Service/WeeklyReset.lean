import RatingService.Framework.Runs
import RatingService.Utils.DateTime

/-!
# The weekly reset

`RatingAnnouncer::doWork` of `service/rating_announcer.cpp`, over any number of
sessions: the announcer is made anew for each, `m_ratingExpirationDate` belongs
to the core data and stays. Every reading of the system clock is a step's
label, and readings never go back.

- §1: the thread.
- §2: what the calls in a log should look like.
- §3: the invariant.
- §4: runs.
-/

namespace RatingService

open Runs DateTime

/-! ## §1  The thread -/

/-- Where the announcer's thread is in `doWork`. -/
inductive AnnouncerPc where
  /-- there is no session -/
  | idle
  /-- at the first reading of the week -/
  | starting
  /-- at the sleep till the next full second -/
  | syncing
  /-- at the call of `recalculate` -/
  | recalculating
  | recalculated
  /-- in the loop over the seconds -/
  | announcing
  /-- behind that loop -/
  | minuteDone
  /-- at the second sleep till a full second -/
  | resyncing
  /-- at the check at the end of a minute -/
  | checking
  /-- left by an exception; the error is unrecoverable -/
  | failed
deriving DecidableEq

/-- What the thread does, with the readings that go with it. -/
inductive AnnouncerEvent where
  /-- a call of `recalculate` -/
  | recalculate (dropOldRating : Bool) (now : ℤ)
  /-- an assignment to `m_ratingExpirationDate` -/
  | expires (old new : ℤ)
  /-- a check at the end of a minute; `turned` is its outcome -/
  | check (turned : Bool)
deriving DecidableEq

structure Announcer where
  pc : AnnouncerPc := .idle
  dropOldRating : Bool := false
  weekJustTurned : Bool := false
  chronoSetIndex : ℕ := 0
  ratingExpirationDate : ℤ := 0
  /-- a ghost: the latest reading of the clock -/
  clock : ℤ
  /-- a ghost -/
  log : List AnnouncerEvent := []
deriving DecidableEq

namespace Announcer

/-- `m_ratingExpirationDate = DateTime::currentWeekStart()`. -/
def setExpirationDate (s : Announcer) : Announcer :=
  { s with
    ratingExpirationDate := currentWeekStart s.clock
    log := s.log ++
      [.expires s.ratingExpirationDate (currentWeekStart s.clock)] }

/-- `RatingAnnouncer::doWork`, one step; `badFlag` is what its load returns.
What is announced has no part in it. -/
def doWork (s : Announcer) (badFlag : Bool) : Option Announcer :=
  match s.pc with
  | .starting =>
      if s.ratingExpirationDate = 0 then
        some { s.setExpirationDate with pc := .syncing }
      else if s.ratingExpirationDate ≠ currentWeekStart s.clock then
        some { s with pc := .syncing, dropOldRating := true }
      else some { s with pc := .syncing }
  | .syncing => some { s with
      pc := .recalculating, chronoSetIndex := currentSecondIndex s.clock }
  | .recalculating => some { s with
      pc := .recalculated
      log := s.log ++ [.recalculate s.dropOldRating s.clock] }
  | .recalculated =>
      if s.dropOldRating then some
        { s.setExpirationDate with pc := .announcing, dropOldRating := false }
      else some { s with pc := .announcing }
  | .announcing =>
      if s.chronoSetIndex < 60 ∧ badFlag = false then
        some { s with chronoSetIndex := s.chronoSetIndex + 1 }
      else some { s with pc := .minuteDone }
  | .minuteDone =>
      if s.chronoSetIndex ≠ 60 then some { s with pc := .idle }
      else if s.weekJustTurned then some { s with
        pc := .resyncing, dropOldRating := true, weekJustTurned := false }
      else some { s with pc := .checking }
  | .resyncing => some { s with
      pc := .recalculating, chronoSetIndex := currentSecondIndex s.clock }
  | .checking =>
      let turned : Bool := s.ratingExpirationDate < currentWeekStart s.clock
      some { s with
        pc := .recalculating
        weekJustTurned := s.weekJustTurned || turned
        chronoSetIndex := 0
        log := s.log ++ [.check turned] }
  | .idle => none
  | .failed => none

/-- A new session: the variables of `doWork` begin anew. -/
def start (s : Announcer) : Option Announcer :=
  if s.pc = .idle then some { s with
    pc := .starting, dropOldRating := false, weekJustTurned := false }
  else none

end Announcer

inductive AnnouncerStep where
  | start
  | doWork (badFlag : Bool)
  | throws

namespace Announcer

/-- A step at the reading `now`. -/
def step (s : Announcer) (a : AnnouncerStep × ℤ) : Option Announcer :=
  if s.clock ≤ a.2 then
    match a.1 with
    | .start => { s with clock := a.2 }.start
    | .doWork badFlag => { s with clock := a.2 }.doWork badFlag
    | .throws =>
        if s.pc = .recalculating ∨ s.pc = .announcing then
          some { s with clock := a.2, pc := .failed }
        else none
  else none

/-- The expiration date begins with the epoch. -/
def machine : Machine Announcer (AnnouncerStep × ℤ) where
  init s := ∃ clock, s = { clock := clock }
  step := step

end Announcer

/-! ## §2  Logs -/

/-- The calls of `recalculate`, by their arguments. -/
def recalculations (log : List AnnouncerEvent) : List Bool :=
  log.filterMap fun
    | .recalculate dropOldRating _ => some dropOldRating
    | _ => none

def drops (log : List AnnouncerEvent) : List ℤ :=
  log.filterMap fun
    | .recalculate true now => some now
    | _ => none

/-- Behind every drop the expiration date goes up at once. -/
def DropsRenew (log : List AnnouncerEvent) : Prop :=
  ∀ pre now post, log = pre ++ .recalculate true now :: post →
    post = [] ∨ ∃ old new post',
      post = .expires old new :: post' ∧ old < new

def DropsWeekly (log : List AnnouncerEvent) : Prop :=
  (drops log).Pairwise fun t t' => currentWeekStart t < currentWeekStart t'

/-- Behind every check that finds the week over comes at once a call of
`recalculate(false)`, and the next call is `recalculate(true)`. -/
def TurnsDrop (log : List AnnouncerEvent) : Prop :=
  ∀ pre post, log = pre ++ .check true :: post →
    post = [] ∨ ∃ now post', post = .recalculate false now :: post' ∧
      (recalculations post' = [] ∨ ∃ rest, recalculations post' = true :: rest)

/-- Since the latest such check there was the one `recalculate(false)`, and no
call after it. -/
def Owed (log : List AnnouncerEvent) : Prop :=
  ∃ pre now post, log = pre ++ .check true :: .recalculate false now :: post ∧
    recalculations post = []

section Logs

variable {log : List AnnouncerEvent} {e : AnnouncerEvent}

theorem split_snoc {pre post : List AnnouncerEvent} {a : AnnouncerEvent}
    (h : log ++ [e] = pre ++ a :: post) :
    post = [] ∧ log = pre ∧ e = a ∨
      ∃ post', post = post' ++ [e] ∧ log = pre ++ a :: post' := by
  rcases List.eq_nil_or_concat post with rfl | ⟨post', e', rfl⟩
  · obtain ⟨hlog, he⟩ := List.append_inj' h rfl
    exact Or.inl ⟨rfl, hlog, List.singleton_inj.mp he⟩
  · rw [List.concat_eq_append, ← List.cons_append, ← List.append_assoc] at h
    obtain ⟨hlog, he⟩ := List.append_inj' h rfl
    refine Or.inr ⟨post', ?_, hlog⟩
    rw [List.concat_eq_append, List.singleton_inj.mp he]

theorem recalculations_append (log log' : List AnnouncerEvent) :
    recalculations (log ++ log') =
      recalculations log ++ recalculations log' :=
  List.filterMap_append

theorem DropsRenew.snoc (h : DropsRenew log)
    (hlast : ∀ now, log.getLast? = some (.recalculate true now) →
      ∃ old new, e = .expires old new ∧ old < new) :
    DropsRenew (log ++ [e]) := by
  intro pre now post hsplit
  rcases split_snoc hsplit with ⟨rfl, -, -⟩ | ⟨post', rfl, hlog⟩
  · exact Or.inl rfl
  · rcases h pre now post' hlog with rfl | ⟨old, new, post'', rfl, hlt⟩
    · obtain ⟨old, new, rfl, hlt⟩ :=
        hlast now (by rw [hlog, List.getLast?_concat])
      exact Or.inr ⟨old, new, [], rfl, hlt⟩
    · exact Or.inr ⟨old, new, post'' ++ [e], rfl, hlt⟩

theorem Owed.of_snoc (h : Owed (log ++ [e])) :
    log.getLast? = some (.check true) ∧ (∃ now, e = .recalculate false now) ∨
      Owed log ∧ ∀ b now, e ≠ .recalculate b now := by
  obtain ⟨pre, now, post, hsplit, hnone⟩ := h
  rcases split_snoc hsplit with ⟨hpost, -, -⟩ | ⟨post', hpost, hlog⟩
  · cases hpost
  · cases post' with
    | nil =>
        obtain ⟨rfl, -⟩ := List.cons.inj hpost
        exact Or.inl ⟨by rw [hlog, List.getLast?_concat], now, rfl⟩
    | cons a post' =>
        have htail : post = post' ++ [e] := (List.cons.inj hpost).2
        rw [← (List.cons.inj hpost).1] at hlog
        subst htail
        rw [recalculations_append, List.append_eq_nil_iff] at hnone
        refine Or.inr ⟨⟨pre, now, post', hlog, hnone.1⟩, ?_⟩
        rintro b now' rfl
        cases hnone.2

theorem TurnsDrop.snoc (h : TurnsDrop log)
    (hlast : log.getLast? = some (.check true) →
      ∃ now, e = .recalculate false now)
    (howed : Owed log → ∀ now, e ≠ .recalculate false now) :
    TurnsDrop (log ++ [e]) := by
  intro pre post hsplit
  rcases split_snoc hsplit with ⟨rfl, -, -⟩ | ⟨post', rfl, hlog⟩
  · exact Or.inl rfl
  · rcases h pre post' hlog with rfl | ⟨now, post'', rfl, hnext⟩
    · obtain ⟨now, rfl⟩ := hlast (by rw [hlog, List.getLast?_concat])
      exact Or.inr ⟨now, [], rfl, Or.inl rfl⟩
    · refine Or.inr ⟨now, post'' ++ [e], rfl, ?_⟩
      rw [recalculations_append]
      rcases hnext with hnone | ⟨rest, hrest⟩
      · have hnot := howed ⟨pre, now, post'', hlog, hnone⟩
        rw [hnone, List.nil_append]
        cases e with
        | recalculate b now' =>
            cases b with
            | true => exact Or.inr ⟨[], rfl⟩
            | false => exact absurd rfl (hnot now')
        | expires old new => exact Or.inl rfl
        | check turned => exact Or.inl rfl
      · exact Or.inr ⟨rest ++ recalculations [e], by rw [hrest]; rfl⟩

theorem drops_append (log log' : List AnnouncerEvent) :
    drops (log ++ log') = drops log ++ drops log' :=
  List.filterMap_append

theorem DropsWeekly.snoc (h : DropsWeekly log)
    (hnew : ∀ t ∈ drops log, ∀ t' ∈ drops [e],
      currentWeekStart t < currentWeekStart t') :
    DropsWeekly (log ++ [e]) := by
  rw [DropsWeekly, drops_append, List.pairwise_append]
  refine ⟨h, ?_, hnew⟩
  cases e with
  | recalculate b now =>
      cases b with
      | true => exact List.pairwise_singleton _ _
      | false => exact List.Pairwise.nil
  | expires old new => exact List.Pairwise.nil
  | check turned => exact List.Pairwise.nil

end Logs

namespace Announcer

/-! ## §3  The invariant -/

/-- The week that the expiration date stands for is over. -/
def Late (s : Announcer) : Prop :=
  s.ratingExpirationDate < currentWeekStart s.clock

def Flags (s : Announcer) : Prop :=
  match s.pc with
  | .idle => True
  | .starting => s.dropOldRating = false ∧ s.weekJustTurned = false
  | .syncing => s.ratingExpirationDate ≠ 0 ∧ s.weekJustTurned = false ∧
      (s.dropOldRating = true → s.Late)
  | .resyncing => s.ratingExpirationDate ≠ 0 ∧ s.weekJustTurned = false ∧
      (s.dropOldRating = true → s.Late)
  | .recalculating => s.ratingExpirationDate ≠ 0 ∧
      (s.dropOldRating = true → s.Late ∧ s.weekJustTurned = false) ∧
      (s.weekJustTurned = true → s.Late)
  | .recalculated => s.ratingExpirationDate ≠ 0 ∧
      (s.dropOldRating = true → s.Late ∧ s.weekJustTurned = false) ∧
      (s.weekJustTurned = true → s.Late)
  | .announcing => s.ratingExpirationDate ≠ 0 ∧ s.dropOldRating = false ∧
      (s.weekJustTurned = true → s.Late)
  | .minuteDone => s.ratingExpirationDate ≠ 0 ∧ s.dropOldRating = false ∧
      (s.weekJustTurned = true → s.Late)
  | .checking => s.ratingExpirationDate ≠ 0 ∧ s.dropOldRating = false ∧
      s.weekJustTurned = false
  | .failed => True

/-- Behind a drop, before the new expiration date. -/
def Dropped (s : Announcer) : Prop :=
  s.pc = .recalculated ∧ s.dropOldRating = true

instance (s : Announcer) : Decidable s.Dropped :=
  inferInstanceAs (Decidable (_ ∧ _))

def droppedWeek (s : Announcer) : ℤ :=
  if s.Dropped then currentWeekStart s.clock else s.ratingExpirationDate

/-- Behind a check that found the week over. -/
def Turned (s : Announcer) : Prop :=
  s.pc = .recalculating ∧ s.dropOldRating = false ∧
      s.weekJustTurned = true ∨
    s.pc = .failed

/-- Where a drop is owed: the next call has to be `recalculate(true)`. -/
def Owing (s : Announcer) : Prop :=
  match s.pc with
  | .idle => s.ratingExpirationDate ≠ 0 ∧ s.Late
  | .starting => s.ratingExpirationDate ≠ 0 ∧ s.Late
  | .syncing => s.dropOldRating = true
  | .resyncing => s.dropOldRating = true
  | .recalculating => s.dropOldRating = true
  | .recalculated => s.dropOldRating = false ∧ s.weekJustTurned = true
  | .announcing => s.weekJustTurned = true
  | .minuteDone => s.weekJustTurned = true
  | .checking => False
  | .failed => True

/-- **The invariant of the weekly reset.** -/
structure Weekly (s : Announcer) : Prop where
  date : s.ratingExpirationDate ≠ 0 →
    MondayMidnight s.ratingExpirationDate ∧ s.ratingExpirationDate ≤ s.clock
  flags : s.Flags
  renew : DropsRenew s.log
  dropped : ∀ now,
    s.log.getLast? = some (.recalculate true now) → s.Dropped
  weekly : DropsWeekly s.log
  past : ∀ t ∈ drops s.log,
    s.ratingExpirationDate ≠ 0 ∧ currentWeekStart t ≤ s.droppedWeek
  turns : TurnsDrop s.log
  turned : s.log.getLast? = some (.check true) → s.Turned
  owing : Owed s.log → s.Owing

variable {s s' : Announcer}

theorem Late.tick {now : ℤ} (h : s.Late) (hnow : s.clock ≤ now) :
    Late { s with clock := now } :=
  lt_of_lt_of_le h (currentWeekStart_mono hnow)

theorem Flags.tick {now : ℤ} (h : s.Flags) (hnow : s.clock ≤ now) :
    Flags { s with clock := now } := by
  have hlate : s.Late → Late { s with clock := now } := fun h => h.tick hnow
  revert h
  simp only [Flags]
  split <;> tauto

theorem Owing.tick {now : ℤ} (h : s.Owing) (hnow : s.clock ≤ now) :
    Owing { s with clock := now } := by
  have hlate : s.Late → Late { s with clock := now } := fun h => h.tick hnow
  revert h
  simp only [Owing]
  split <;> tauto

theorem droppedWeek_tick {now : ℤ} (hnow : s.clock ≤ now) :
    s.droppedWeek ≤ droppedWeek { s with clock := now } := by
  rw [droppedWeek, droppedWeek]
  by_cases hdropped : s.Dropped
  · rw [if_pos hdropped, if_pos (show Dropped { s with clock := now } from
      hdropped)]
    exact currentWeekStart_mono hnow
  · rw [if_neg hdropped, if_neg (show ¬ Dropped { s with clock := now } from
      hdropped)]

theorem Weekly.tick {now : ℤ} (h : s.Weekly) (hnow : s.clock ≤ now) :
    Weekly { s with clock := now } where
  date := fun hset => ⟨(h.date hset).1, (h.date hset).2.trans hnow⟩
  flags := h.flags.tick hnow
  renew := h.renew
  dropped := h.dropped
  weekly := h.weekly
  past := fun t ht =>
    ⟨(h.past t ht).1, (h.past t ht).2.trans (droppedWeek_tick hnow)⟩
  turns := h.turns
  turned := h.turned
  owing := fun howed => (h.owing howed).tick hnow

theorem Weekly.quiet (h : s.Weekly) (hlog : s'.log = s.log)
    (hdate : s'.ratingExpirationDate = s.ratingExpirationDate)
    (hclock : s'.clock = s.clock) (hdropped : ¬ s.Dropped)
    (hdropped' : ¬ s'.Dropped) (hflags : s'.Flags)
    (hturned : s.Turned → s'.Turned) (howing : s.Owing → s'.Owing) :
    s'.Weekly where
  date := by
    rw [hdate, hclock]
    exact h.date
  flags := hflags
  renew := hlog ▸ h.renew
  dropped := fun now hlast => absurd (h.dropped now (hlog ▸ hlast)) hdropped
  weekly := hlog ▸ h.weekly
  past := by
    intro t ht
    have hpast := h.past t (hlog ▸ ht)
    rw [droppedWeek, if_neg hdropped] at hpast
    rw [droppedWeek, if_neg hdropped', hdate]
    exact hpast
  turns := hlog ▸ h.turns
  turned := fun hlast => hturned (h.turned (hlog ▸ hlast))
  owing := fun howed => howing (h.owing (hlog ▸ howed))

theorem Weekly.snoc {e : AnnouncerEvent} (h : s.Weekly)
    (hlog : s'.log = s.log ++ [e])
    (hdate : s'.ratingExpirationDate ≠ 0 →
      MondayMidnight s'.ratingExpirationDate ∧
        s'.ratingExpirationDate ≤ s'.clock)
    (hflags : s'.Flags)
    (hrenew : s.Dropped → ∃ old new, e = .expires old new ∧ old < new)
    (hdropped : ∀ now, e = .recalculate true now → s'.Dropped)
    (hpast : s.ratingExpirationDate ≠ 0 →
      s'.ratingExpirationDate ≠ 0 ∧ s.droppedWeek ≤ s'.droppedWeek)
    (hnew : ∀ t ∈ drops [e], s'.ratingExpirationDate ≠ 0 ∧
      s.droppedWeek < currentWeekStart t ∧
        currentWeekStart t ≤ s'.droppedWeek)
    (hturned : s.Turned → ∃ now, e = .recalculate false now)
    (hturned' : e = .check true → s'.Turned)
    (howing : s.Owing → ∀ now, e ≠ .recalculate false now)
    (howing' : (s.Turned ∧ (∃ now, e = .recalculate false now) ∨
      s.Owing ∧ ∀ b now, e ≠ .recalculate b now) → s'.Owing) :
    s'.Weekly where
  date := hdate
  flags := hflags
  renew := by
    rw [hlog]
    exact h.renew.snoc fun now hlast => hrenew (h.dropped now hlast)
  dropped := by
    intro now hlast
    rw [hlog, List.getLast?_concat] at hlast
    exact hdropped now (Option.some.inj hlast)
  weekly := by
    rw [hlog]
    refine h.weekly.snoc fun t ht t' ht' => ?_
    exact lt_of_le_of_lt (h.past t ht).2 (hnew t' ht').2.1
  past := by
    intro t ht
    rw [hlog, drops_append, List.mem_append] at ht
    rcases ht with ht | ht
    · obtain ⟨hset, hle⟩ := hpast (h.past t ht).1
      exact ⟨hset, (h.past t ht).2.trans hle⟩
    · exact ⟨(hnew t ht).1, (hnew t ht).2.2⟩
  turns := by
    rw [hlog]
    exact h.turns.snoc (fun hlast => hturned (h.turned hlast))
      fun howed => howing (h.owing howed)
  turned := by
    intro hlast
    rw [hlog, List.getLast?_concat] at hlast
    exact hturned' (Option.some.inj hlast)
  owing := by
    intro howed
    rw [hlog] at howed
    exact howing' (howed.of_snoc.imp
      (And.imp_left h.turned) (And.imp_left h.owing))

theorem not_dropped (hpc : s.pc ≠ .recalculated) : ¬ s.Dropped :=
  fun h => hpc h.1

theorem not_turned (hrec : s.pc ≠ .recalculating) (hfail : s.pc ≠ .failed) :
    ¬ s.Turned := by
  rintro (⟨h, -, -⟩ | h)
  · exact hrec h
  · exact hfail h

theorem droppedWeek_eq (h : ¬ s.Dropped) :
    s.droppedWeek = s.ratingExpirationDate :=
  if_neg h

/-- The expiration date has no later week than the reading. -/
theorem Weekly.date_le (h : s.Weekly) (hset : s.ratingExpirationDate ≠ 0) :
    s.ratingExpirationDate ≤ currentWeekStart s.clock :=
  (h.date hset).1.le_currentWeekStart (h.date hset).2

/-- A new expiration date: the first one, or the one behind a drop. -/
theorem Weekly.setExpirationDate (h : s.Weekly)
    (hwhy : s.ratingExpirationDate = 0 ∧ ¬ s.Dropped ∨
      s.Dropped ∧ s.Late) (hnot : ¬ s.Turned) (howing : ¬ s.Owing)
    {pc : AnnouncerPc} (hpc : pc ≠ .recalculated)
    (hflags : Flags { s.setExpirationDate with
      pc := pc, dropOldRating := false }) :
    Weekly { s.setExpirationDate with pc := pc, dropOldRating := false } := by
  have hmonday := currentWeekStart_monday s.clock
  have hdropped' : ¬ Dropped { s.setExpirationDate with
      pc := pc, dropOldRating := false } := fun hd => hpc hd.1
  refine h.snoc rfl (fun _ => ⟨hmonday, currentWeekStart_le _⟩) hflags ?_ ?_
    ?_ ?_ (fun ht => absurd ht hnot) nofun (fun ho => absurd ho howing) ?_
  · intro hdropped
    rcases hwhy with ⟨-, hnd⟩ | ⟨-, hlate⟩
    · exact absurd hdropped hnd
    · exact ⟨_, _, rfl, hlate⟩
  · exact nofun
  · intro hset
    rw [droppedWeek_eq hdropped']
    refine ⟨hmonday.ne_zero, ?_⟩
    rcases hwhy with ⟨hzero, -⟩ | ⟨hdropped, -⟩
    · exact absurd hzero hset
    · exact le_of_eq (if_pos hdropped)
  · exact nofun
  · rintro (⟨ht, -⟩ | ⟨ho, -⟩)
    · exact absurd ht hnot
    · exact absurd ho howing

theorem Weekly.starting (h : s.Weekly) (hpc : s.pc = .starting)
    {badFlag : Bool} (hs : s.doWork badFlag = some s') : s'.Weekly := by
  have hflags := h.flags
  simp only [Flags, hpc] at hflags
  obtain ⟨hdrop, hturn⟩ := hflags
  have hnot : ¬ s.Dropped := not_dropped (by simp [hpc])
  have hnot' : ¬ s.Turned := not_turned (by simp [hpc]) (by simp [hpc])
  simp only [doWork, hpc] at hs
  split at hs
  · next hzero =>
    have heq : ({ s.setExpirationDate with pc := .syncing } : Announcer) =
        { s.setExpirationDate with pc := .syncing, dropOldRating := false } :=
      by rw [← hdrop]; rfl
    rw [heq] at hs
    cases hs
    refine h.setExpirationDate (Or.inl ⟨hzero, hnot⟩) hnot' ?_ (by simp) ?_
    · simp [Owing, hpc, hzero]
    · exact ⟨(currentWeekStart_monday _).ne_zero, hturn, nofun⟩
  · next hset =>
    have hle := h.date_le hset
    split at hs <;> cases hs
    · next hne =>
      -- a session that begins in a later week
      have hlate : s.Late := lt_of_le_of_ne hle hne
      exact h.quiet rfl rfl rfl hnot (not_dropped (by simp))
        ⟨hset, hturn, fun _ => hlate⟩ (fun ht => absurd ht hnot')
        fun _ => rfl
    · next heq =>
      refine h.quiet rfl rfl rfl hnot (not_dropped (by simp))
        ⟨hset, hturn, ?_⟩ (fun ht => absurd ht hnot') ?_
      · intro hd
        exact absurd hd (by simp [hdrop])
      · intro howing
        simp only [Owing, hpc, Late] at howing
        exact absurd howing.2 (by rw [not_not.mp heq]; exact lt_irrefl _)

theorem Weekly.recalculating (h : s.Weekly) (hpc : s.pc = .recalculating)
    {badFlag : Bool} (hs : s.doWork badFlag = some s') : s'.Weekly := by
  have hflags := h.flags
  simp only [Flags, hpc] at hflags
  have hnot : ¬ s.Dropped := not_dropped (by simp [hpc])
  simp only [doWork, hpc, Option.some.injEq] at hs
  subst hs
  refine h.snoc rfl h.date hflags (fun hd => absurd hd hnot) ?_ ?_ ?_ ?_
    nofun ?_ ?_
  · intro now hevent
    exact ⟨rfl, (AnnouncerEvent.recalculate.inj hevent).1⟩
  · intro hset
    refine ⟨hset, ?_⟩
    rw [droppedWeek_eq hnot, droppedWeek]
    split
    · exact h.date_le hset
    · exact le_refl _
  · intro t ht
    rw [droppedWeek_eq hnot]
    cases hdrop : s.dropOldRating with
    | false =>
        rw [hdrop] at ht
        exact absurd ht (List.not_mem_nil)
    | true =>
        rw [hdrop] at ht
        cases List.mem_singleton.mp ht
        exact ⟨hflags.1, (hflags.2.1 hdrop).1,
          le_of_eq (if_pos ⟨rfl, rfl⟩).symm⟩
  · rintro (⟨-, hdrop, -⟩ | hfail)
    · exact ⟨s.clock, by rw [hdrop]⟩
    · exact absurd hfail (by simp [hpc])
  · intro howing now hevent
    simp only [Owing, hpc] at howing
    exact absurd (AnnouncerEvent.recalculate.inj hevent).1 (by simp [howing])
  · rintro (⟨⟨-, hdrop, hturn⟩ | hfail, -⟩ | ⟨-, hno⟩)
    · exact ⟨hdrop, hturn⟩
    · exact absurd hfail (by simp [hpc])
    · exact absurd rfl (hno s.dropOldRating s.clock)

theorem Weekly.recalculated (h : s.Weekly) (hpc : s.pc = .recalculated)
    {badFlag : Bool} (hs : s.doWork badFlag = some s') : s'.Weekly := by
  have hflags := h.flags
  simp only [Flags, hpc] at hflags
  obtain ⟨hset, hlate, hturn⟩ := hflags
  have hnot' : ¬ s.Turned := not_turned (by simp [hpc]) (by simp [hpc])
  simp only [doWork, hpc] at hs
  split at hs <;> cases hs
  · next hdrop =>
    obtain ⟨hlate, hturn⟩ := hlate hdrop
    refine h.setExpirationDate (Or.inr ⟨⟨hpc, hdrop⟩, hlate⟩) hnot' ?_
      (by simp) ?_
    · simp [Owing, hpc, hdrop]
    · refine ⟨(currentWeekStart_monday _).ne_zero, rfl, fun ht => ?_⟩
      exact absurd ht (by simp [Announcer.setExpirationDate, hturn])
  · next hdrop =>
    have hdrop : s.dropOldRating = false := Bool.not_eq_true _ ▸ hdrop
    refine h.quiet rfl rfl rfl (fun hd => absurd hd.2 (by simp [hdrop]))
      (not_dropped (by simp)) ⟨hset, hdrop, hturn⟩
      (fun ht => absurd ht hnot') ?_
    intro howing
    simp only [Owing, hpc] at howing
    exact howing.2

theorem Weekly.checking (h : s.Weekly) (hpc : s.pc = .checking)
    {badFlag : Bool} (hs : s.doWork badFlag = some s') : s'.Weekly := by
  have hflags := h.flags
  simp only [Flags, hpc] at hflags
  obtain ⟨hset, hdrop, hturn⟩ := hflags
  have hnot : ¬ s.Dropped := not_dropped (by simp [hpc])
  have hnot' : ¬ s.Turned := not_turned (by simp [hpc]) (by simp [hpc])
  have howing : ¬ s.Owing := by simp [Owing, hpc]
  simp only [doWork, hpc, Option.some.injEq] at hs
  subst hs
  refine h.snoc rfl h.date ⟨hset, ?_, ?_⟩ (fun hd => absurd hd hnot) nofun ?_
    nofun (fun ht => absurd ht hnot') ?_ (fun ho => absurd ho howing) ?_
  · intro hd
    exact absurd hd (by simp [hdrop])
  · intro ht
    simp only [hturn, Bool.false_or, decide_eq_true_eq] at ht
    exact ht
  · intro hset
    refine ⟨hset, le_of_eq ?_⟩
    rw [droppedWeek_eq hnot, droppedWeek_eq (not_dropped (by simp))]
  · intro hevent
    have hlate := AnnouncerEvent.check.inj hevent
    exact Or.inl ⟨rfl, hdrop, by simp only [hlate, Bool.or_true]⟩
  · rintro (⟨ht, -⟩ | ⟨ho, -⟩)
    · exact absurd ht hnot'
    · exact absurd ho howing

theorem Weekly.doWork_quiet (h : s.Weekly)
    (hpc : s.pc = .syncing ∨ s.pc = .resyncing ∨ s.pc = .announcing ∨
      s.pc = .minuteDone)
    {badFlag : Bool} (hs : s.doWork badFlag = some s') : s'.Weekly := by
  have hflags := h.flags
  rcases hpc with hpc | hpc | hpc | hpc <;>
    simp only [Flags, hpc] at hflags <;>
    simp only [doWork, hpc] at hs
  · cases hs
    refine h.quiet rfl rfl rfl (not_dropped (by simp [hpc]))
      (not_dropped (by simp)) ⟨hflags.1, ?_, ?_⟩
      (fun ht => absurd ht (not_turned (by simp [hpc]) (by simp [hpc]))) ?_
    · intro hd
      exact ⟨hflags.2.2 hd, hflags.2.1⟩
    · intro ht
      exact absurd ht (by simp [hflags.2.1])
    · intro ho
      simpa only [Owing, hpc] using ho
  · cases hs
    refine h.quiet rfl rfl rfl (not_dropped (by simp [hpc]))
      (not_dropped (by simp)) ⟨hflags.1, ?_, ?_⟩
      (fun ht => absurd ht (not_turned (by simp [hpc]) (by simp [hpc]))) ?_
    · intro hd
      exact ⟨hflags.2.2 hd, hflags.2.1⟩
    · intro ht
      exact absurd ht (by simp [hflags.2.1])
    · intro ho
      simpa only [Owing, hpc] using ho
  · split at hs <;> cases hs <;>
      refine h.quiet rfl rfl rfl (not_dropped (by simp [hpc]))
        (not_dropped (by simp)) hflags
        (fun ht => absurd ht (not_turned (by simp [hpc]) (by simp [hpc]))) ?_
    · intro ho
      simpa only [Owing, hpc] using ho
    · intro ho
      simpa only [Owing, hpc] using ho
  · have hnot : ¬ s.Dropped := not_dropped (by simp [hpc])
    have hnot' : ¬ s.Turned := not_turned (by simp [hpc]) (by simp [hpc])
    split at hs
    · -- the session ends
      cases hs
      refine h.quiet rfl rfl rfl hnot (not_dropped (by simp)) trivial
        (fun ht => absurd ht hnot') fun ho => ?_
      simp only [Owing, hpc] at ho
      exact ⟨hflags.1, hflags.2.2 ho⟩
    · split at hs <;> cases hs
      · next hturn =>
        exact h.quiet rfl rfl rfl hnot (not_dropped (by simp))
          ⟨hflags.1, rfl, fun _ => hflags.2.2 hturn⟩
          (fun ht => absurd ht hnot') fun _ => rfl
      · next hturn =>
        refine h.quiet rfl rfl rfl hnot (not_dropped (by simp))
          ⟨hflags.1, hflags.2.1, Bool.not_eq_true _ ▸ hturn⟩
          (fun ht => absurd ht hnot') fun ho => ?_
        simp only [Owing, hpc] at ho
        exact absurd ho hturn

theorem Weekly.doWork (h : s.Weekly) {badFlag : Bool}
    (hs : s.doWork badFlag = some s') : s'.Weekly := by
  cases hpc : s.pc with
  | starting => exact h.starting hpc hs
  | recalculating => exact h.recalculating hpc hs
  | recalculated => exact h.recalculated hpc hs
  | checking => exact h.checking hpc hs
  | syncing => exact h.doWork_quiet (by simp [hpc]) hs
  | resyncing => exact h.doWork_quiet (by simp [hpc]) hs
  | announcing => exact h.doWork_quiet (by simp [hpc]) hs
  | minuteDone => exact h.doWork_quiet (by simp [hpc]) hs
  | idle =>
      rw [Announcer.doWork, hpc] at hs
      cases hs
  | failed =>
      rw [Announcer.doWork, hpc] at hs
      cases hs

theorem Weekly.start (h : s.Weekly) (hs : s.start = some s') :
    s'.Weekly := by
  rw [Announcer.start] at hs
  split at hs
  · next hpc =>
    cases hs
    refine h.quiet rfl rfl rfl (not_dropped (by simp [hpc]))
      (not_dropped (by simp)) ⟨rfl, rfl⟩
      (fun ht => absurd ht (not_turned (by simp [hpc]) (by simp [hpc]))) ?_
    intro ho
    simp only [Owing, hpc] at ho
    exact ho
  · cases hs

theorem Weekly.throws (h : s.Weekly)
    (hpc : s.pc = .recalculating ∨ s.pc = .announcing) :
    Weekly { s with pc := .failed } := by
  have hnot : ¬ s.Dropped := not_dropped (by rcases hpc with h | h <;> simp [h])
  exact h.quiet rfl rfl rfl hnot (not_dropped (by simp)) trivial
    (fun _ => Or.inr rfl) fun _ => trivial

theorem Weekly.step {a : AnnouncerStep × ℤ} (h : s.Weekly)
    (hs : s.step a = some s') : s'.Weekly := by
  obtain ⟨a, now⟩ := a
  rw [Announcer.step] at hs
  split at hs
  · next hnow =>
    have htick := h.tick hnow
    cases a with
    | start => exact htick.start hs
    | doWork badFlag => exact htick.doWork hs
    | throws =>
        dsimp only at hs
        split at hs
        · next hpc =>
          cases hs
          exact htick.throws hpc
        · cases hs
  · cases hs

theorem Weekly.init {s : Announcer} (h : machine.init s) : s.Weekly := by
  obtain ⟨clock, rfl⟩ := h
  refine ⟨fun h => absurd rfl h, trivial, ?_, nofun, List.Pairwise.nil,
    nofun, ?_, nofun, ?_⟩
  · intro pre now post h
    exact absurd h (by simp)
  · intro pre post h
    exact absurd h (by simp)
  · rintro ⟨pre, now, post, h, -⟩
    exact absurd h (by simp)

/-! ## §4  Runs -/

/-- **The weekly reset**: in every run, over any number of sessions, the
expiration date is the beginning of a week that is not in the future; it goes
up right behind every drop (which the thread is about to do where the drop is
the latest event), and no week has two drops; and a week found over is
followed at once by one more call of `recalculate(false)` (at which the thread
is where the check is the latest event), which is followed by
`recalculate(true)`, in this session or in the next one. -/
theorem weeklyReset_sound {s : Announcer} (h : machine.Reachable s) :
    (s.ratingExpirationDate ≠ 0 → MondayMidnight s.ratingExpirationDate ∧
      s.ratingExpirationDate ≤ s.clock) ∧
    DropsRenew s.log ∧
    (∀ now, s.log.getLast? = some (.recalculate true now) → s.Dropped) ∧
    DropsWeekly s.log ∧
    TurnsDrop s.log ∧
    (s.log.getLast? = some (.check true) → s.Turned) := by
  obtain ⟨as, hrun⟩ := h
  have hweekly : s.Weekly :=
    hrun.invariant (fun _ => Weekly.init) fun _ _ _ hinv _ hs => hinv.step hs
  exact ⟨hweekly.date, hweekly.renew, hweekly.dropped, hweekly.weekly,
    hweekly.turns, hweekly.turned⟩

/-- Five seconds before a Monday. -/
def sundayNight : ℤ := days 4 + weeks 2900 - seconds 5

/-- Two sessions around the beginning of a week: the first one starts at the
second 55, finds the week over behind that and is stopped by the bad flag. -/
def twoWeeks : List (AnnouncerStep × ℤ) :=
  (.start, sundayNight) ::
    List.replicate 3 (.doWork false, sundayNight) ++
    List.replicate 6 (.doWork false, sundayNight + seconds 5) ++
    (.doWork false, sundayNight + seconds 6) ::
    (.doWork false, sundayNight + seconds 6) ::
    List.replicate 5 (.doWork true, sundayNight + seconds 7) ++
    [(.start, sundayNight + seconds 9)] ++
    List.replicate 4 (.doWork false, sundayNight + seconds 9)

theorem weeklyReset_twoWeeks :
    ∃ s, machine.Reachable s ∧ drops s.log = [sundayNight + seconds 9] ∧
      s.ratingExpirationDate = sundayNight + seconds 5 ∧
      DropsRenew s.log ∧ DropsWeekly s.log ∧ TurnsDrop s.log := by
  obtain ⟨s, hs, hdrops, hdate⟩ :
      ∃ s, machine.schedule { clock := sundayNight } twoWeeks = some s ∧
        drops s.log = [sundayNight + seconds 9] ∧
        s.ratingExpirationDate = sundayNight + seconds 5 :=
    ⟨_, rfl, by decide, by decide⟩
  have h : machine.Reachable s :=
    Machine.reachable_of_schedule twoWeeks ⟨sundayNight, rfl⟩ hs
  obtain ⟨-, hrenew, -, hweekly, hturns, -⟩ := weeklyReset_sound h
  exact ⟨s, h, hdrops, hdate, hrenew, hweekly, hturns⟩

end Announcer

end RatingService
