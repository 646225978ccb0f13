import Mathlib.Data.List.Basic

/-!
# Runs of a machine

Two notions of run, both with the one induction that every invariant proof
over runs uses.

- §1: a *sequential* program whose step may fail. `exec` folds the step over
  the inputs and stops at the first failure; `Meets` says that every step of
  that fold is taken from a state and an input that satisfy a condition.
- §2: an *interleaved* machine whose step is a partial function of a label
  (`none`: the labelled step is not enabled). `Run C as s` says that `s` is
  reached by the labels `as`, each taken from a state where `C` held.
-/

namespace Runs

/-! ## §1  Sequential programs -/

section Sequential

variable {σ α ε : Type*}

/-- The program's run over a list of inputs, stopped by the first failure. -/
def exec (step : σ → α → Except ε σ) : σ → List α → Except ε σ
  | s, [] => .ok s
  | s, a :: as =>
      match step s a with
      | .ok s' => exec step s' as
      | .error e => .error e

/-- Every step of the run over `as` starts where `C` holds. -/
def Meets (step : σ → α → Except ε σ) (C : σ → α → Prop) :
    σ → List α → Prop
  | _, [] => True
  | s, a :: as => C s a ∧ ∀ s', step s a = .ok s' → Meets step C s' as

variable {step : σ → α → Except ε σ} {C : σ → α → Prop} {Inv : σ → Prop}

/-- **Run rule**: a step that always completes and keeps the invariant makes
every run complete with it. -/
theorem exec_total (hstep : ∀ s a, Inv s → ∃ s', step s a = .ok s' ∧ Inv s') :
    ∀ (as : List α) (s : σ), Inv s → ∃ s', exec step s as = .ok s' ∧ Inv s'
  | [], s, hinv => ⟨s, rfl, hinv⟩
  | a :: as, s, hinv => by
      obtain ⟨s₁, hs₁, hinv₁⟩ := hstep s a hinv
      obtain ⟨s₂, hs₂, hinv₂⟩ := exec_total hstep as s₁ hinv₁
      exact ⟨s₂, by rw [exec, hs₁]; exact hs₂, hinv₂⟩

/-- **Run rule under a premise**: the same for runs whose steps all meet it. -/
theorem exec_of_meets {P : σ → α → Prop}
    (hstep : ∀ s a, Inv s → P s a → ∃ s', step s a = .ok s' ∧ Inv s') :
    ∀ (as : List α) (s : σ), Inv s → Meets step P s as →
      ∃ s', exec step s as = .ok s' ∧ Inv s'
  | [], s, hinv, _ => ⟨s, rfl, hinv⟩
  | a :: as, s, hinv, ⟨hP, hrest⟩ => by
      obtain ⟨s₁, hs₁, hinv₁⟩ := hstep s a hinv hP
      obtain ⟨s₂, hs₂, hinv₂⟩ := exec_of_meets hstep as s₁ hinv₁ (hrest s₁ hs₁)
      exact ⟨s₂, by rw [exec, hs₁]; exact hs₂, hinv₂⟩

instance decidableMeets [∀ s a, Decidable (C s a)] :
    ∀ (s : σ) (as : List α), Decidable (Meets step C s as)
  | _, [] => .isTrue trivial
  | s, a :: as =>
      match hs : step s a with
      | .ok s' =>
          haveI := decidableMeets s' as
          decidable_of_iff (C s a ∧ Meets step C s' as) <| by
            rw [Meets, hs]
            exact and_congr_right fun _ =>
              ⟨fun h s₁ hs₁ => Except.ok.inj hs₁ ▸ h, fun h => h s' rfl⟩
      | .error e =>
          decidable_of_iff (C s a) <| by
            rw [Meets, hs]
            exact ⟨fun h => ⟨h, fun s₁ hs₁ => by cases hs₁⟩, And.left⟩

theorem Meets.prefix {C : σ → α → Prop} :
    ∀ {as : List α} (bs : List α) {s : σ}, Meets step C s (as ++ bs) →
      Meets step C s as
  | [], _, _, _ => trivial
  | _ :: _, bs, _, ⟨hC, hrest⟩ =>
      ⟨hC, fun s' hs' => Meets.prefix bs (hrest s' hs')⟩

/-- **Exact runs**: if a step, under the invariant and a premise `P`, either
meets the condition and keeps the invariant or fails, a run with the premise
either meets the condition throughout and completes, or fails. -/
theorem exec_exact {P : σ → α → Prop}
    (hstep : ∀ s a, Inv s → P s a →
      (C s a ∧ ∃ s', step s a = .ok s' ∧ Inv s') ∨
        (¬ C s a ∧ ∃ e, step s a = .error e)) :
    ∀ (as : List α) (s : σ), Inv s → Meets step P s as →
      (Meets step C s as ∧ ∃ s', exec step s as = .ok s' ∧ Inv s') ∨
        (¬ Meets step C s as ∧ ∃ e, exec step s as = .error e)
  | [], s, hinv, _ => Or.inl ⟨trivial, s, rfl, hinv⟩
  | a :: as, s, hinv, hmeets => by
      obtain ⟨hP, hrest⟩ := hmeets
      rw [exec, Meets]
      rcases hstep s a hinv hP with ⟨hC, s₁, hs₁, hinv₁⟩ | ⟨hC, e, he⟩
      · rw [hs₁]
        refine (exec_exact hstep as s₁ hinv₁ (hrest s₁ hs₁)).imp
          (And.imp_left fun h => ⟨hC, fun s' hs' => ?_⟩)
          (And.imp_left fun h hall => h (hall.2 s₁ rfl))
        cases hs'
        exact h
      · rw [he]
        exact Or.inr ⟨fun h => hC h.1, e, rfl⟩

theorem exec_cons {a : α} {as : List α} {s s' : σ}
    (h : exec step s (a :: as) = .ok s') :
    ∃ s₁, step s a = .ok s₁ ∧ exec step s₁ as = .ok s' := by
  rw [exec] at h
  cases hs : step s a with
  | ok s₁ =>
      rw [hs] at h
      exact ⟨s₁, rfl, h⟩
  | error e =>
      rw [hs] at h
      cases h

theorem exec_singleton (a : α) (s : σ) : exec step s [a] = step s a := by
  rw [exec]
  cases step s a <;> rfl

theorem exec_append (as bs : List α) (s : σ) :
    exec step s (as ++ bs) =
      match exec step s as with
      | .ok s' => exec step s' bs
      | .error e => .error e := by
  induction as generalizing s with
  | nil => rfl
  | cons a as ih =>
      rw [List.cons_append, exec, exec]
      cases step s a with
      | ok s' => exact ih s'
      | error e => rfl

theorem exec_concat {as : List α} {a : α} {s s' : σ}
    (h : exec step s (as ++ [a]) = .ok s') :
    ∃ s₁, exec step s as = .ok s₁ ∧ step s₁ a = .ok s' := by
  rw [exec_append] at h
  cases hs : exec step s as with
  | ok s₁ =>
      rw [hs] at h
      exact ⟨s₁, rfl, (exec_singleton a s₁).symm.trans h⟩
  | error e =>
      rw [hs] at h
      cases h

/-- A run meets a condition if the condition holds of each of its inputs in
the state that input finds. -/
theorem meets_iff : ∀ {as : List α} {s : σ}, Meets step C s as ↔
    ∀ pre a, pre ++ [a] <+: as → ∀ s', exec step s pre = .ok s' → C s' a
  | [], _ => by
      constructor
      · intro _ pre a hpre
        exact absurd (List.prefix_nil.mp hpre)
          (List.append_ne_nil_of_right_ne_nil _ (List.cons_ne_nil _ _))
      · exact fun _ => trivial
  | b :: as, s => by
      constructor
      · rintro ⟨hC, hrest⟩ pre a hpre s' hs'
        cases pre with
        | nil =>
            cases hs'
            rw [(List.cons_prefix_cons.mp hpre).1]
            exact hC
        | cons c pre =>
            rw [List.cons_append] at hpre
            obtain ⟨rfl, hrun⟩ := List.cons_prefix_cons.mp hpre
            obtain ⟨s₁, hs₁, hs'⟩ := exec_cons hs'
            exact meets_iff.mp (hrest s₁ hs₁) pre a hrun s' hs'
      · intro h
        refine ⟨h [] b ⟨as, rfl⟩ s rfl, fun s₁ hs₁ => meets_iff.mpr ?_⟩
        intro pre a hpre s' hs'
        refine h (b :: pre) a (List.cons_prefix_cons.mpr ⟨rfl, hpre⟩) s' ?_
        rw [exec, hs₁]
        exact hs'

end Sequential

/-! ## §2  Interleaved machines -/

/-- A machine: its initial states and its labelled, partial steps. -/
structure Machine (σ α : Type*) where
  init : σ → Prop
  step : σ → α → Option σ

namespace Machine

variable {σ α : Type*} (M : Machine σ α)

/-- `s` is reached from an initial state by the steps `as` (in order), every
one of them taken from a state where `C` held of the state and the label. -/
inductive Run (C : σ → α → Prop) : List α → σ → Prop
  | init {s : σ} (hs : M.init s) : Run C [] s
  | step {as : List α} {s s' : σ} {a : α} (hrun : Run C as s) (hC : C s a)
      (hstep : M.step s a = some s') : Run C (as ++ [a]) s'

/-- `s` is reached by some interleaving, no condition asked. -/
def Reachable (s : σ) : Prop := ∃ as, M.Run (fun _ _ => True) as s

variable {M} {C : σ → α → Prop} {Inv : σ → Prop}

/-- **Invariant rule**: what holds initially and is kept by every step that
meets the condition holds in every state such runs reach. -/
theorem Run.invariant {as : List α} {s : σ} (h : M.Run C as s)
    (hinit : ∀ s, M.init s → Inv s)
    (hstep : ∀ s a s', Inv s → C s a → M.step s a = some s' → Inv s') :
    Inv s := by
  induction h with
  | init hs => exact hinit _ hs
  | step _ hC hs ih => exact hstep _ _ _ ih hC hs

/-- The state a list of labels leads to, if each is enabled in its turn. -/
def schedule (M : Machine σ α) : σ → List α → Option σ
  | s, [] => some s
  | s, a :: as => (M.step s a).bind fun s' => schedule M s' as

def Along (M : Machine σ α) (C : σ → α → Prop) : σ → List α → Prop
  | _, [] => True
  | s, a :: as =>
      C s a ∧ match M.step s a with
        | some s' => Along M C s' as
        | none => True

instance decidableAlong [∀ s a, Decidable (C s a)] :
    ∀ (s : σ) (as : List α), Decidable (M.Along C s as)
  | _, [] => .isTrue trivial
  | s, a :: as =>
      haveI : Decidable (match M.step s a with
          | some s' => M.Along C s' as
          | none => True) :=
        match M.step s a with
        | some s' => decidableAlong s' as
        | none => .isTrue trivial
      inferInstanceAs (Decidable (_ ∧ _))

theorem along_true (as : List α) :
    ∀ s, M.Along (fun _ _ => True) s as := by
  induction as with
  | nil => exact fun _ => trivial
  | cons a as ih =>
      intro s
      rw [Along]
      refine ⟨trivial, ?_⟩
      split
      · exact ih _
      · trivial

theorem Run.schedule {as bs : List α} {s s' : σ} (h : M.Run C as s)
    (halong : M.Along C s bs) (hbs : M.schedule s bs = some s') :
    M.Run C (as ++ bs) s' := by
  induction bs generalizing as s with
  | nil =>
      rw [List.append_nil]
      cases hbs
      exact h
  | cons b bs ih =>
      obtain ⟨s₁, hs₁, hrest⟩ := Option.bind_eq_some_iff.mp hbs
      obtain ⟨hC, halong⟩ := halong
      rw [hs₁] at halong
      rw [List.append_cons]
      exact ih (.step h hC hs₁) halong hrest

/-- A schedule that runs through is a run. -/
theorem run_of_schedule (as : List α) {s s' : σ} (hs : M.init s)
    (halong : M.Along C s as) (h : M.schedule s as = some s') :
    M.Run C as s' :=
  Run.schedule (.init hs) halong h

/-- A schedule that runs through witnesses reachability. -/
theorem reachable_of_schedule (as : List α) {s s' : σ} (hs : M.init s)
    (h : M.schedule s as = some s') : M.Reachable s' :=
  ⟨as, run_of_schedule as hs (along_true as s) h⟩

end Machine

end Runs
