import RatingService.Service.ExactWinnings
import RatingService.Service.LastRename

/-!
# Recovery

The loop of `Overseer::run` over any number of sessions that end in recoverable
errors. Tables and buckets are members of the `Overseer`; the buffers and the
queues belong to `PluggableInfrastructure`, which is made anew. Its destruction
waits for the announcer's thread, and so for a recalculation under way: that is
one event, at the exchange of the buffers.

- §1: sessions.
- §2: what the accepted messages should come to.
- §3: what the sessions keep.
- §4: exactly when everything accepted is applied.
- §5: a deal that is lost.
-/

namespace RatingService

open FixedWidth Runs

variable {dm : DataModel} {n : ℕ}

/-! ## §1  Sessions -/

/-- A new queue. The round-robin index of the promises belongs to the thread of
`Overseer::run`, the others to threads that are gone. -/
def JobQueue.renew (q : JobQueue n) : JobQueue n :=
  { JobQueue.create (Nat.zero_lt_of_lt q.promiseIndex.isLt) with
    promiseIndex := q.promiseIndex }

/-- The state of the service behind `m_pluggable.reset` and the construction of
the next `PluggableInfrastructure`. -/
def ServiceState.renew (st : ServiceState dm n) : ServiceState dm n :=
  { userData := st.userData
    iterationData := st.iterationData
    jobQueue := st.jobQueue.renew }

inductive OverseerEvent (dm : DataModel) where
  | message (second : Fin 60) (msg : ClientMessage dm)
  | recalculate (dropOldRating : Bool)
  /-- the session ends in a recoverable error, the next one begins -/
  | transportError
deriving DecidableEq

namespace Overseer

def step (st : ServiceState dm n) :
    OverseerEvent dm → Outcome (ServiceState dm n)
  | .message second msg => st.step (.message second msg)
  | .recalculate dropOldRating => st.step (.recalculate dropOldRating)
  | .transportError => .ok st.renew

/-! ## §2  Accepted messages -/

def undisturbed (evs : List (OverseerEvent dm)) : List (ServiceEvent dm) :=
  evs.filterMap fun
    | .message second msg => some (.message second msg)
    | .recalculate dropOldRating => some (.recalculate dropOldRating)
    | .transportError => none

/-- The minutes of the run, and the messages behind its last recalculation. No
error counts as the end of a minute. -/
def cut (evs : List (OverseerEvent dm)) : List (Minute dm) × Dispatches dm :=
  evs.foldl (fun (ms, msgs) ev => match ev with
    | .message second msg => (ms, msgs ++ [(second, msg)])
    | .recalculate dropOldRating =>
        (ms ++ [{ messages := msgs, dropOldRating }], [])
    | .transportError => (ms, msgs)) ([], [])

def minutes (evs : List (OverseerEvent dm)) : List (Minute dm) := (cut evs).1

def sinceRecalculation (evs : List (OverseerEvent dm)) : Dispatches dm :=
  (cut evs).2

/-- **Everything accepted is applied**, once: a user's record is what the
minutes make of him one after the other, his winnings are the exact sum of his
deals since the last drop (as far as the type goes), of whichever session they
are; and what is still to be worked in is in the buffer. -/
structure Applied (evs : List (OverseerEvent dm)) (st : ServiceState dm n) :
    Prop where
  basic : ∀ id, st.basic id =
    (minutes evs).foldl (fun b m => m.basic id b) none
  amountWon : ∀ id,
    (st.userData.activeUsers.lookup id).map (·.amountWon) =
      stored (8 * dm.sizeofLong) ((account (undisturbed evs)).settled id)
  pending : st.incomingData.currentBuffer = dispatchAll (sinceRecalculation evs)

/-- **The condition**: no session ends with a message behind its last
recalculation. -/
def EndsWorkedIn (evs : List (OverseerEvent dm)) : Prop :=
  ∀ pre, pre ++ [.transportError] <+: evs → sinceRecalculation pre = []

instance (evs : List (OverseerEvent dm)) : Decidable (EndsWorkedIn evs) :=
  decidable_of_iff (∀ pre ∈ evs.inits,
      pre ++ [.transportError] <+: evs → sinceRecalculation pre = [])
    ⟨fun h pre hpre => h pre ((List.mem_inits _ _).mpr
      ((List.prefix_append _ _).trans hpre)) hpre, fun h pre _ => h pre⟩

theorem EndsWorkedIn.earlier {evs pre : List (OverseerEvent dm)}
    (h : EndsWorkedIn evs) (hpre : pre <+: evs) : EndsWorkedIn pre :=
  fun pre' hpre' => h pre' (hpre'.trans hpre)

section Concat

variable (evs : List (OverseerEvent dm))

theorem undisturbed_concat (ev : OverseerEvent dm) :
    undisturbed (evs ++ [ev]) = undisturbed evs ++ undisturbed [ev] :=
  List.filterMap_append

theorem cut_concat (ev : OverseerEvent dm) :
    cut (evs ++ [ev]) = match ev with
      | .message second msg =>
          (minutes evs, sinceRecalculation evs ++ [(second, msg)])
      | .recalculate dropOldRating => (minutes evs ++
          [{ messages := sinceRecalculation evs, dropOldRating }], [])
      | .transportError => cut evs := by
  rw [cut, List.foldl_append]
  rfl

end Concat

theorem dispatchAll_eq_empty {msgs : Dispatches dm}
    (h : dispatchAll msgs = {}) : msgs = [] := by
  cases msgs with
  | nil => rfl
  | cons first rest =>
      obtain ⟨second, msg⟩ := first
      exfalso
      cases msg with
      | registered msg =>
          have hname := Dispatches.dispatchAll_usersRegistered msg.userId
            ((second, .registered msg) :: rest)
          rw [h] at hname
          simp [Dispatches.registrations] at hname
      | renamed msg =>
          have hname := Dispatches.dispatchAll_usersRenamed msg.userId
            ((second, .renamed msg) :: rest)
          rw [h] at hname
          simp [Dispatches.renames] at hname
      | connected msg =>
          have hsecond := Dispatches.dispatchAll_connectionChanges msg.userId
            ((second, .connected msg) :: rest)
          rw [h] at hsecond
          simp [Dispatches.connections, List.getLast?_cons] at hsecond
      | disconnected msg =>
          have hsecond := Dispatches.dispatchAll_connectionChanges msg.userId
            ((second, .disconnected msg) :: rest)
          rw [h] at hsecond
          simp [Dispatches.connections, List.getLast?_cons] at hsecond
      | dealWon msg =>
          have hsum := Dispatches.dispatchAll_dealsWon msg.userId
            ((second, .dealWon msg) :: rest)
          rw [h] at hsum
          simp [Dispatches.deals] at hsum

/-! ## §3  What the sessions keep -/

/-- **The invariant**: the tables and the buffer against the messages. -/
structure Keeps (evs : List (OverseerEvent dm)) (st : ServiceState dm n) :
    Prop where
  consistent : Consistent st.userData st.iterationData
  balanced : st.Balanced (account (undisturbed evs))
  basic : ∀ id, st.basic id =
    (minutes evs).foldl (fun b m => m.basic id b) none
  pending : st.incomingData.currentBuffer = dispatchAll (sinceRecalculation evs)

variable {evs : List (OverseerEvent dm)} {st st' : ServiceState dm n}

theorem keeps_init (q : JobQueue n) :
    Keeps [] ({ jobQueue := q } : ServiceState dm n) where
  consistent := consistent_empty
  balanced := ServiceState.balanced_init q
  basic := fun _ => rfl
  pending := rfl

theorem Keeps.message (h : Keeps evs st) {second : Fin 60}
    {msg : ClientMessage dm} (hs : step st (.message second msg) = .ok st') :
    Keeps (evs ++ [.message second msg]) st' := by
  have hbalanced : st'.Balanced (account (undisturbed (evs ++
      [.message second msg]))) := by
    rw [undisturbed_concat]
    exact (account_concat (undisturbed evs) _).symm ▸ h.balanced.message hs
  rw [step, ServiceState.step_message] at hs
  cases hs
  refine ⟨h.consistent, hbalanced, fun id => ?_, ?_⟩
  · rw [minutes, cut_concat]
    exact h.basic id
  · rw [sinceRecalculation, cut_concat]
    dsimp only
    rw [dispatchAll_append, ← h.pending]
    exact Function.update_self ..

theorem Keeps.recalculate (h : Keeps evs st) {dropOldRating : Bool}
    (hs : step st (.recalculate dropOldRating) = .ok st') :
    Keeps (evs ++ [.recalculate dropOldRating]) st' := by
  have hbalanced : st'.Balanced (account (undisturbed (evs ++
      [.recalculate dropOldRating]))) := by
    rw [undisturbed_concat]
    exact (account_concat (undisturbed evs) _).symm ▸ h.balanced.recalculate hs
  obtain ⟨c, hc, hs⟩ := bind_eq_ok.mp hs
  cases hs
  have hdisj := h.consistent.disjoint
  have hsec := h.balanced.sound.seconds st.incomingData.currentBufferIndex
  have hclear := RatingCalculatorImpl.recalculate_incomingBuffer
    (s := st.calculator) hdisj hsec hc
  obtain ⟨-, hrecords⟩ := RatingCalculatorImpl.recalculate_of_ok
    (s := st.calculator) hdisj hsec hc
  refine ⟨RatingCalculatorImpl.IsConsistent.recalculate (s := st.calculator)
    h.consistent hc, hbalanced, fun id => ?_, ?_⟩
  · have hminute := Minute.basic_batchState
      { messages := sinceRecalculation evs, dropOldRating } st.userData
      st.iterationData st.jobQueue id
    rw [← h.pending] at hminute
    rw [minutes, cut_concat]
    dsimp only
    rw [List.foldl_append, List.foldl_cons, List.foldl_nil, ← h.basic]
    exact (hrecords id).1.trans hminute
  · rw [sinceRecalculation, cut_concat]
    show ((st.incomingData.setBuffer st.incomingData.currentBufferIndex
      c.incomingBuffer).switch).buffers _ = {}
    rw [hclear]
    exact IncomingDataDoubleBuffer.buffers_cleared h.balanced.other _

/-- The error loses what is in the buffer: nothing, if all is worked in. -/
theorem Keeps.transportError (h : Keeps evs st)
    (hended : sinceRecalculation evs = []) :
    Keeps (evs ++ [.transportError]) st.renew := by
  have hempty : st.incomingData.currentBuffer = {} := by
    rw [h.pending, hended]
    rfl
  have hsame : undisturbed (evs ++ [.transportError]) = undisturbed evs := by
    rw [undisturbed_concat]
    exact List.append_nil _
  refine ⟨h.consistent, ?_, ?_, ?_⟩
  · rw [hsame]
    have hbalanced := h.balanced
    refine ⟨⟨hbalanced.sound.integrity, hbalanced.sound.disjoint,
      fun _ => secondsOk_empty⟩, hbalanced.size, fun _ _ => rfl, fun id => ?_,
      fun id => ?_, hbalanced.settled⟩
    · have hknown := hbalanced.known id
      rw [hempty] at hknown
      exact hknown
    · have hpending := hbalanced.pending id
      rw [hempty] at hpending
      exact hpending
  · rw [minutes, cut_concat]
    exact h.basic
  · rw [sinceRecalculation, cut_concat]
    show _ = dispatchAll (sinceRecalculation evs)
    rw [hended]
    rfl

/-- **A run** whose sessions end worked in keeps everything. -/
theorem keeps_of_run (q : JobQueue n) (evs : List (OverseerEvent dm))
    (hended : EndsWorkedIn evs) {st : ServiceState dm n}
    (hs : exec step { jobQueue := q } evs = .ok st) : Keeps evs st := by
  induction evs using List.reverseRecOn generalizing st with
  | nil =>
      cases hs
      exact keeps_init q
  | append_singleton evs ev ih =>
      obtain ⟨st₁, hst₁, hstep⟩ := exec_concat hs
      have h := ih (hended.earlier (List.prefix_append _ _)) hst₁
      cases ev with
      | message second msg => exact h.message hstep
      | recalculate dropOldRating => exact h.recalculate hstep
      | transportError =>
          cases hstep
          exact h.transportError (hended evs (List.prefix_refl _))

/-! ## §4  Everything accepted -/

theorem Keeps.applied (h : Keeps evs st) : Applied evs st where
  basic := h.basic
  amountWon := by
    intro id
    rw [← h.balanced.settled, CoreRatingData.rated, Option.map_map]
    rfl
  pending := h.pending

/-- **Exactly when recovery keeps accepted data**: all along a run of any
number of sessions, everything accepted is applied once or still in the buffer,
if and only if no session ends with a message behind its last
recalculation. -/
theorem applied_iff (q : JobQueue n) (evs : List (OverseerEvent dm))
    {st : ServiceState dm n}
    (hs : exec step { jobQueue := q } evs = .ok st) :
    (∀ pre, pre <+: evs → ∀ st', exec step { jobQueue := q } pre = .ok st' →
        Applied pre st') ↔
      EndsWorkedIn evs := by
  constructor
  · rintro hall pre ⟨post, rfl⟩
    have hrun : ∃ st', exec step { jobQueue := q } (pre ++ [.transportError]) =
        .ok st' := by
      rw [exec_append] at hs
      cases hpre : exec step { jobQueue := q } (pre ++ [.transportError]) with
      | ok st' => exact ⟨st', rfl⟩
      | error e =>
          rw [hpre] at hs
          cases hs
    obtain ⟨st', hst'⟩ := hrun
    have hpending := (hall _ ⟨post, rfl⟩ st' hst').pending
    obtain ⟨st₁, -, hstep⟩ := exec_concat hst'
    cases hstep
    rw [sinceRecalculation, cut_concat] at hpending
    exact dispatchAll_eq_empty hpending.symm
  · intro hended pre hpre st' hst'
    exact (keeps_of_run q pre (hended.earlier hpre) hst').applied

/-- Under the condition the last renames win as in one session. -/
theorem Applied.storedName (h : Applied evs st) {id : IdT}
    (hfirst : Dispatches.RegisteredFirst id (allMessages (minutes evs))) :
    st.storedName id = Dispatches.lastName id (allMessages (minutes evs)) ↔
      RenamesAgree id (minutes evs) := by
  rw [← nameAfter_eq_iff _ hfirst, ServiceState.storedName, h.basic,
    foldl_basic_name]
  rfl

/-! ## §5  A lost deal -/

/-- Two users win; the first one is renamed and wins again, and the connection
breaks after `kept` recalculations. The next session has one, then the second
user wins again, and after a recalculation the connection breaks once more. -/
def winTwice (kept : ℕ) : List (OverseerEvent .lp64) :=
  [.message 0 (.registered ⟨⟨1⟩, [97]⟩), .message 0 (.registered ⟨⟨2⟩, [98]⟩),
    .message 1 (.dealWon ⟨⟨1⟩, 10⟩), .message 2 (.dealWon ⟨⟨2⟩, 20⟩),
    .recalculate false, .message 0 (.renamed ⟨⟨1⟩, [99]⟩),
    .message 3 (.dealWon ⟨⟨1⟩, 5⟩)] ++
  List.replicate kept (.recalculate false) ++
  [.transportError, .recalculate false, .message 0 (.dealWon ⟨⟨2⟩, 7⟩),
    .recalculate false, .transportError]

/-- With a recalculation between the deal and the error, nothing is lost. -/
theorem winTwice_applied :
    ∃ st, exec step { jobQueue := oneWorker } (winTwice 1) = .ok st ∧
      Applied (winTwice 1) st ∧
      (account (undisturbed (winTwice 1))).total 1 = 15 ∧
      (account (undisturbed (winTwice 1))).total 2 = 27 := by
  obtain ⟨st, hst⟩ : ∃ st, exec step { jobQueue := oneWorker } (winTwice 1) =
    .ok st := ⟨_, rfl⟩
  have happlied := (applied_iff oneWorker _ hst).mpr (by decide)
  exact ⟨st, hst, happlied _ (List.prefix_refl _) st hst, rfl, rfl⟩

/-- Without one, the deal is, and the new name with it. -/
theorem winTwice_lost :
    ∃ st, exec step { jobQueue := oneWorker } (winTwice 0) = .ok st ∧
      st.userData.winnings 1 = 10 ∧
      (account (undisturbed (winTwice 0))).total 1 = 15 ∧
      st.storedName 1 = some [97] ∧ ¬ Applied (winTwice 0) st := by
  refine ⟨_, rfl, rfl, rfl, rfl, fun h => ?_⟩
  have hwon := h.amountWon 1
  revert hwon
  decide +kernel

end Overseer

end RatingService
