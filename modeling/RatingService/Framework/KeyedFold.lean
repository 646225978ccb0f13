import Mathlib.Data.List.Basic

/-!
# Folding keyed updates

A loop over entries with distinct keys, each of which changes a state at its
own key only, acts on every key at most once. `view s k` is the part of the
state at key `k`, `R e` what entry `e` does to the part at its own key.
-/

namespace KeyedFold

variable {σ E K S ε : Type*}

/-- The first entry acts at its key, the others leave that key alone. -/
theorem view_cons {key : E → K} {view : σ → K → S} {R : E → S → S → Prop}
    {s s₁ s₂ : σ} {e : E} {l : List E} (hnew : key e ∉ l.map key)
    (hself : R e (view s (key e)) (view s₁ (key e)))
    (hother : ∀ k, k ≠ key e → view s₁ k = view s k)
    (hmem : ∀ e' ∈ l, R e' (view s₁ (key e')) (view s₂ (key e')))
    (hout : ∀ k, k ∉ l.map key → view s₂ k = view s₁ k) :
    (∀ e' ∈ e :: l, R e' (view s (key e')) (view s₂ (key e'))) ∧
      ∀ k, k ∉ (e :: l).map key → view s₂ k = view s k := by
  constructor
  · intro e' he'
    rcases List.mem_cons.mp he' with rfl | he'
    · rw [hout _ hnew]
      exact hself
    · have hne : key e' ≠ key e := fun heq =>
        hnew (heq ▸ List.mem_map_of_mem he')
      rw [← hother _ hne]
      exact hmem e' he'
  · intro k hk
    rw [List.map_cons, List.mem_cons, not_or] at hk
    rw [hout k hk.2, hother k hk.1]

/-- **Pointwise action of a loop.** -/
theorem foldl_view (key : E → K) (view : σ → K → S) (R : E → S → S → Prop)
    {step : σ → E → σ}
    (hself : ∀ s e, R e (view s (key e)) (view (step s e) (key e)))
    (hother : ∀ s e k, k ≠ key e → view (step s e) k = view s k) :
    ∀ (l : List E) (s : σ), (l.map key).Nodup →
      (∀ e ∈ l, R e (view s (key e)) (view (l.foldl step s) (key e))) ∧
      ∀ k, k ∉ l.map key → view (l.foldl step s) k = view s k
  | [], s, _ => ⟨fun _ he => absurd he List.not_mem_nil, fun _ _ => rfl⟩
  | e :: l, s, hnd => by
      rw [List.map_cons, List.nodup_cons] at hnd
      obtain ⟨hmem, hout⟩ :=
        foldl_view key view R hself hother l (step s e) hnd.2
      rw [List.foldl_cons]
      exact view_cons hnd.1 (hself s e) (hother s e) hmem hout

/-- **Pointwise action of a loop that may fail**, where an invariant and a
condition on the entries keep it from failing. -/
theorem foldlM_view (key : E → K) (view : σ → K → S) (R : E → S → S → Prop)
    (Inv : σ → Prop) (P : E → Prop) {step : σ → E → Except ε σ}
    (hstep : ∀ s e, Inv s → P e → ∃ s', step s e = .ok s' ∧ Inv s' ∧
      R e (view s (key e)) (view s' (key e)) ∧
      ∀ k, k ≠ key e → view s' k = view s k) :
    ∀ (l : List E) (s : σ), (l.map key).Nodup → Inv s → (∀ e ∈ l, P e) →
      ∃ s', l.foldlM step s = .ok s' ∧ Inv s' ∧
        (∀ e ∈ l, R e (view s (key e)) (view s' (key e))) ∧
        ∀ k, k ∉ l.map key → view s' k = view s k
  | [], s, _, hinv, _ =>
      ⟨s, rfl, hinv, fun _ he => absurd he List.not_mem_nil, fun _ _ => rfl⟩
  | e :: l, s, hnd, hinv, hP => by
      rw [List.map_cons, List.nodup_cons] at hnd
      obtain ⟨s₁, hs₁, hinv₁, hself, hother⟩ :=
        hstep s e hinv (hP e List.mem_cons_self)
      obtain ⟨s₂, hs₂, hinv₂, hmem, hout⟩ :=
        foldlM_view key view R Inv P hstep l s₁ hnd.2 hinv₁
          fun e' he' => hP e' (List.mem_cons_of_mem _ he')
      refine ⟨s₂, ?_, hinv₂, view_cons hnd.1 hself hother hmem hout⟩
      rw [List.foldlM_cons, hs₁]
      exact hs₂

/-- **Pointwise action of a loop that completes.** -/
theorem foldlM_view_of_ok (key : E → K) (view : σ → K → S)
    (R : E → S → S → Prop) (Inv : σ → Prop) {step : σ → E → Except ε σ}
    (hstep : ∀ s e s', Inv s → step s e = .ok s' → Inv s' ∧
      R e (view s (key e)) (view s' (key e)) ∧
      ∀ k, k ≠ key e → view s' k = view s k) :
    ∀ (l : List E) (s s' : σ), (l.map key).Nodup → Inv s →
      l.foldlM step s = .ok s' →
      Inv s' ∧ (∀ e ∈ l, R e (view s (key e)) (view s' (key e))) ∧
        ∀ k, k ∉ l.map key → view s' k = view s k
  | [], s, s', _, hinv, h => by
      cases h
      exact ⟨hinv, fun _ he => absurd he List.not_mem_nil, fun _ _ => rfl⟩
  | e :: l, s, s', hnd, hinv, h => by
      rw [List.map_cons, List.nodup_cons] at hnd
      rw [List.foldlM_cons] at h
      cases hs : step s e with
      | error err =>
          rw [hs] at h
          cases h
      | ok s₁ =>
          rw [hs] at h
          obtain ⟨hinv₁, hself, hother⟩ := hstep s e s₁ hinv hs
          obtain ⟨hinv', hmem, hout⟩ :=
            foldlM_view_of_ok key view R Inv hstep l s₁ s' hnd.2 hinv₁ h
          exact ⟨hinv', view_cons hnd.1 hself hother hmem hout⟩

/-- **What a loop gives out.** A turn that gives out what the state at its key
says, and leaves the other keys alone: the state before the loop says it all. -/
theorem foldl_emits {O : Type*} (key : E → K) (view : σ → K → S) (out : σ → O)
    (emit : O → E → S → O) {step : σ → E → σ}
    (hout : ∀ s e, out (step s e) = emit (out s) e (view s (key e)))
    (hother : ∀ s e k, k ≠ key e → view (step s e) k = view s k) :
    ∀ (l : List E) (s : σ), (l.map key).Nodup →
      out (l.foldl step s) =
        l.foldl (fun o e => emit o e (view s (key e))) (out s)
  | [], _, _ => rfl
  | e :: l, s, hnd => by
      rw [List.map_cons, List.nodup_cons] at hnd
      rw [List.foldl_cons, foldl_emits key view out emit hout hother l _ hnd.2,
        List.foldl_cons, hout]
      refine List.foldl_ext _ _ _ fun o e' he' => ?_
      rw [hother s e _ fun heq => hnd.1 (heq ▸ List.mem_map_of_mem he')]

theorem foldlM_emits {O : Type*} (key : E → K) (view : σ → K → S) (out : σ → O)
    (emit : O → E → S → O) (Inv : σ → Prop) {step : σ → E → Except ε σ}
    (hstep : ∀ s e s', Inv s → step s e = .ok s' → Inv s' ∧
      out s' = emit (out s) e (view s (key e)) ∧
      ∀ k, k ≠ key e → view s' k = view s k) :
    ∀ (l : List E) (s s' : σ), (l.map key).Nodup → Inv s →
      l.foldlM step s = .ok s' →
      out s' = l.foldl (fun o e => emit o e (view s (key e))) (out s)
  | [], s, s', _, _, h => by
      cases h
      rfl
  | e :: l, s, s', hnd, hinv, h => by
      rw [List.map_cons, List.nodup_cons] at hnd
      rw [List.foldlM_cons] at h
      cases hs : step s e with
      | error err =>
          rw [hs] at h
          cases h
      | ok s₁ =>
          rw [hs] at h
          obtain ⟨hinv₁, hout, hother⟩ := hstep s e s₁ hinv hs
          rw [foldlM_emits key view out emit Inv hstep l s₁ s' hnd.2 hinv₁ h,
            List.foldl_cons, hout]
          refine List.foldl_ext _ _ _ fun o e' he' => ?_
          rw [hother _ fun heq => hnd.1 (heq ▸ List.mem_map_of_mem he')]

theorem foldl_invariant (Inv : σ → Prop) {step : σ → E → σ}
    (hstep : ∀ s e, Inv s → Inv (step s e)) :
    ∀ (l : List E) (s : σ), Inv s → Inv (l.foldl step s)
  | [], _, hinv => hinv
  | e :: l, s, hinv => foldl_invariant Inv hstep l (step s e) (hstep s e hinv)

theorem foldlM_invariant (Inv : σ → Prop) {step : σ → E → Except ε σ}
    (hstep : ∀ s e s', Inv s → step s e = .ok s' → Inv s') :
    ∀ (l : List E) (s s' : σ), Inv s → l.foldlM step s = .ok s' → Inv s'
  | [], s, s', hinv, h => by
      cases h
      exact hinv
  | e :: l, s, s', hinv, h => by
      rw [List.foldlM_cons] at h
      cases hs : step s e with
      | error err =>
          rw [hs] at h
          cases h
      | ok s₁ =>
          rw [hs] at h
          exact foldlM_invariant Inv hstep l s₁ s' (hstep s e s₁ hinv hs) h

end KeyedFold
