import RatingService.Service.Minutes

/-!
# Which rename wins

A user's name through a run. The dispatcher puts renames into the buffer with
`emplace`, so the first one of a minute stays and the others are lost.

- §1: a user's name in one minute.
- §2: the name after a run.
- §3: a minute with two renames.
-/

namespace RatingService

open Runs Dispatches

variable {dm : DataModel} {n : ℕ} {id : IdT}

/-! ## §1  One minute -/

def Minute.name (m : Minute dm) (id : IdT) (o : Option BufferT) :
    Option BufferT :=
  let o := (m.messages.registrations id).head?.elim o
    fun name => some (o.getD name)
  (m.messages.renames id).head?.elim o fun name => o.map fun _ => name

theorem BasicUserData.reconnect_name (u : BasicUserData)
    (second : ConnectTimeT) : (u.reconnect second).name = u.name := by
  unfold reconnect
  split <;> rfl

theorem Minute.name_basic (m : Minute dm) (id : IdT)
    (b : Option BasicUserData) :
    (m.basic id b).map (·.name) = m.name id (b.map (·.name)) := by
  unfold basic name
  cases (m.messages.registrations id).head? <;>
    cases (m.messages.renames id).head? <;>
    cases (m.messages.connections id).getLast? <;>
    cases b <;>
    simp [BasicUserData.reconnect_name]

/-- Without a rename a user keeps his name, or gets it by registration. -/
theorem Minute.name_of_no_rename {m : Minute dm}
    (h : m.messages.renames id = []) (o : Option BufferT) :
    m.name id o = o.or (m.messages.registrations id).head? := by
  unfold name
  rw [h]
  cases (m.messages.registrations id).head? <;> cases o <;> rfl

/-- A registered user gets the first name he is given. -/
theorem Minute.name_of_rename {m : Minute dm} {name : BufferT}
    (h : (m.messages.renames id).head? = some name) {o : Option BufferT}
    (ho : o.isSome ∨ m.messages.registrations id ≠ []) :
    m.name id o = some name := by
  unfold Minute.name
  rw [h, Option.elim_some]
  cases hreg : m.messages.registrations id with
  | cons first rest => rfl
  | nil =>
      rw [hreg] at ho
      obtain ⟨old, rfl⟩ := Option.isSome_iff_exists.mp (ho.resolve_right (· rfl))
      rfl

/-! ## §2  The name after a run -/

namespace Dispatches

/-- Nobody is renamed before he is registered. -/
def RegisteredFirst (id : IdT) (msgs : Dispatches dm) : Prop :=
  ∀ pre msg post, msgs = pre ++ msg :: post → renames id [msg] ≠ [] →
    registrations id pre ≠ []

theorem RegisteredFirst.prefix {msgs msgs' : Dispatches dm}
    (h : RegisteredFirst id (msgs ++ msgs')) : RegisteredFirst id msgs := by
  intro pre msg post hsplit
  refine h pre msg (post ++ msgs') ?_
  rw [hsplit, List.append_assoc, List.cons_append]

/-- A renamed user is a registered one. -/
theorem RegisteredFirst.registered {msgs : Dispatches dm}
    (h : RegisteredFirst id msgs) (hren : msgs.renames id ≠ []) :
    msgs.registrations id ≠ [] := by
  obtain ⟨name, hname⟩ := List.exists_mem_of_ne_nil _ hren
  obtain ⟨msg, hmsg, hmsgname⟩ := List.mem_filterMap.mp hname
  obtain ⟨pre, post, rfl⟩ := List.append_of_mem hmsg
  have hone : renames id [msg] ≠ [] :=
    List.ne_nil_of_mem (List.mem_filterMap.mpr
      ⟨msg, List.mem_singleton_self msg, hmsgname⟩)
  have hreg := h pre msg post rfl hone
  rw [registrations_append]
  exact List.append_ne_nil_of_left_ne_nil hreg _

/-- **The name a user should have**: the one of his last rename, or of his
registration. -/
def lastName (id : IdT) (msgs : Dispatches dm) : Option BufferT :=
  (msgs.renames id).getLast?.or (msgs.registrations id).head?

end Dispatches

/-- In the last of the minutes in which the user is renamed, the first rename
and the last one give him the same name. -/
def RenamesAgree (id : IdT) (ms : List (Minute dm)) : Prop :=
  ∀ m, (ms.filter fun m => m.messages.renames id ≠ []).getLast? = some m →
    (m.messages.renames id).head? = (m.messages.renames id).getLast?

def nameAfter (id : IdT) (ms : List (Minute dm)) : Option BufferT :=
  ms.foldl (fun o m => m.name id o) none

section Names

variable {ms : List (Minute dm)} {m : Minute dm}

theorem nameAfter_concat :
    nameAfter id (ms ++ [m]) = m.name id (nameAfter id ms) := by
  rw [nameAfter, List.foldl_append]
  rfl

theorem renamesAgree_concat (h : m.messages.renames id ≠ []) :
    RenamesAgree id (ms ++ [m]) ↔
      (m.messages.renames id).head? = (m.messages.renames id).getLast? := by
  unfold RenamesAgree
  rw [List.filter_append, List.filter_singleton, decide_eq_true h, cond_true,
    List.getLast?_concat]
  simp

theorem renamesAgree_concat_none (h : m.messages.renames id = []) :
    RenamesAgree id (ms ++ [m]) ↔ RenamesAgree id ms := by
  unfold RenamesAgree
  rw [List.filter_append, List.filter_singleton,
    decide_eq_false (not_not.mpr h), cond_false, List.append_nil]

theorem isSome_nameAfter (ms : List (Minute dm)) :
    (nameAfter id ms).isSome = !(registrations id (allMessages ms)).isEmpty := by
  induction ms using List.reverseRecOn with
  | nil => rfl
  | append_singleton ms m ih =>
      rw [nameAfter_concat, allMessages_concat, registrations_append,
        Minute.name]
      revert ih
      cases registrations id (allMessages ms) <;>
        cases registrations id m.messages <;>
        cases (renames id m.messages).head? <;>
        cases nameAfter id ms <;>
        simp

/-- **Which rename wins**, minute by minute. -/
theorem nameAfter_eq_iff (ms : List (Minute dm))
    (hfirst : RegisteredFirst id (allMessages ms)) :
    nameAfter id ms = lastName id (allMessages ms) ↔ RenamesAgree id ms := by
  induction ms using List.reverseRecOn with
  | nil => exact ⟨fun _ _ => nofun, fun _ => rfl⟩
  | append_singleton ms m ih =>
      rw [allMessages_concat] at hfirst ⊢
      have ih := ih hfirst.prefix
      have hnamed : (nameAfter id ms).isSome = _ := isSome_nameAfter ms
      by_cases hren : m.messages.renames id = []
      · -- nothing but registrations
        rw [nameAfter_concat, Minute.name_of_no_rename hren,
          renamesAgree_concat_none hren, ← ih, lastName, lastName,
          renames_append, hren, List.append_nil, registrations_append,
          List.head?_append]
        cases hreg : registrations id (allMessages ms) with
        | nil =>
            have hnone : renames id (allMessages ms) = [] := by
              by_contra h
              exact hfirst.prefix.registered h hreg
            rw [hreg] at hnamed
            have hnameless : nameAfter id ms = none :=
              Option.isSome_eq_false_iff.mp hnamed |> Option.isNone_iff_eq_none.mp
            rw [hnone, hnameless]
            simp
        | cons name rest =>
            rw [hreg] at hnamed
            obtain ⟨old, hold⟩ := Option.isSome_iff_exists.mp hnamed
            rw [hold]
            simp
      · obtain ⟨name, hname⟩ : ∃ name,
            (m.messages.renames id).head? = some name := by
          cases h : m.messages.renames id with
          | nil => exact absurd h hren
          | cons name rest => exact ⟨name, rfl⟩
        have hknown : (nameAfter id ms).isSome ∨
            m.messages.registrations id ≠ [] := by
          have hreg := hfirst.registered (by simp [renames_append, hren])
          rw [registrations_append] at hreg
          rw [hnamed]
          cases h : registrations id (allMessages ms) with
          | nil =>
              rw [h, List.nil_append] at hreg
              exact Or.inr hreg
          | cons _ _ => exact Or.inl rfl
        rw [nameAfter_concat, Minute.name_of_rename hname hknown,
          renamesAgree_concat hren, hname, lastName, renames_append,
          List.getLast?_append]
        cases hlast : (m.messages.renames id).getLast? with
        | none => exact absurd (List.getLast?_eq_none_iff.mp hlast) hren
        | some last => simp

end Names

def ServiceState.storedName (st : ServiceState dm n) (id : IdT) :
    Option BufferT :=
  (st.basic id).map (·.name)

theorem foldl_basic_name (ms : List (Minute dm)) (b : Option BasicUserData) :
    (ms.foldl (fun b m => m.basic id b) b).map (·.name) =
      ms.foldl (fun o m => m.name id o) (b.map (·.name)) := by
  induction ms generalizing b with
  | nil => rfl
  | cons m ms ih => rw [List.foldl_cons, ih, Minute.name_basic, List.foldl_cons]

/-- **Exactly when the last rename wins**: behind a recalculation a user has
the name of his last rename, or of his registration, if and only if the last
of the minutes in which he is renamed begins and ends with the same name for
him. -/
theorem lastRename_iff (q : JobQueue n) (ms : List (Minute dm))
    (hfirst : RegisteredFirst id (allMessages ms)) {st : ServiceState dm n}
    (hs : exec ServiceState.minute { jobQueue := q } ms = .ok st) :
    st.storedName id = lastName id (allMessages ms) ↔ RenamesAgree id ms := by
  obtain ⟨-, hbasic⟩ :=
    ServiceState.minutes_of_ok ms (ServiceState.rested_init q) hs
  have hname : st.storedName id = nameAfter id ms := by
    rw [ServiceState.storedName, hbasic, foldl_basic_name]
    rfl
  rw [hname, nameAfter_eq_iff ms hfirst]

/-! ## §3  Two renames -/

/-- User 1 is registered as `a` and renamed to `b`. -/
def registeredRenamed : Dispatches .lp64 :=
  [(0, .registered ⟨⟨1⟩, [97]⟩), (0, .renamed ⟨⟨1⟩, [98]⟩)]

/-- He is renamed to `c`. -/
def renamedAgain : Dispatches .lp64 := [(0, .renamed ⟨⟨1⟩, [99]⟩)]

theorem registeredFirst_of_head {msgs : Dispatches dm} {second : Fin 60}
    {msg : UserRegisteredMsg} (hid : msg.userId = id) :
    RegisteredFirst id ((second, .registered msg) :: msgs) := by
  intro pre msg' post hsplit hren
  cases pre with
  | nil =>
      rw [(List.cons.inj hsplit).1.symm] at hren
      exact absurd rfl hren
  | cons first pre =>
      rw [(List.cons.inj hsplit).1.symm, ← List.singleton_append,
        registrations_append, registrations_registered, if_pos hid]
      exact List.cons_ne_nil _ _

/-- In different minutes the last rename wins. -/
theorem lastRename_apart :
    ∃ st, exec ServiceState.minute { jobQueue := oneWorker }
        [⟨registeredRenamed, false⟩, ⟨renamedAgain, true⟩] = .ok st ∧
      st.storedName 1 = lastName 1 (registeredRenamed ++ renamedAgain) := by
  obtain ⟨st, hst⟩ : ∃ st, exec ServiceState.minute { jobQueue := oneWorker }
      [⟨registeredRenamed, false⟩, ⟨renamedAgain, true⟩] = .ok st := ⟨_, rfl⟩
  refine ⟨st, hst, (lastRename_iff oneWorker _
    (registeredFirst_of_head rfl) hst).mpr ?_⟩
  intro m hm
  cases hm
  rfl

/-- In one minute the first one does. -/
theorem lastRename_together :
    ∃ st, exec ServiceState.minute { jobQueue := oneWorker }
        [⟨registeredRenamed ++ renamedAgain, false⟩] = .ok st ∧
      st.storedName 1 = some [98] ∧
      lastName 1 (registeredRenamed ++ renamedAgain) = some [99] :=
  ⟨_, rfl, rfl, rfl⟩

end RatingService
