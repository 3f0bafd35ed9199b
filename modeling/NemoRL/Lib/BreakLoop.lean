import Mathlib.Order.Basic
import Mathlib.Tactic.Common

/-!
# Loops that are left by a break

A loop over a range tests its state before every step and is left when the test holds. A step
may raise, and may leave the loop itself. The loop returns its state and whether it was left
before the range was used up, which is what an `else` of the loop depends on.

## Main definitions

* `breakLoop` — the loop.
* `BreakVisits` — the states from which a loop takes a step.

## Main results

* `breakLoop_invariant`, `BreakVisits.invariant` — the invariant rule.
* `breakLoop_rel` — two loops whose steps are related end in related states.
* `breakLoop_iff_visits` — a property of the last state, by the states on the way.
* `breakLoop_count` — a loop that was not left has taken all its steps.
-/

namespace NemoRL.Lib

/-- Two computations raise, or return related values. -/
inductive ResultRel {ε ε' α β : Type} (R : α → β → Prop) : Except ε α → Except ε' β → Prop
  | raised (e : ε) (e' : ε') : ResultRel R (.error e) (.error e')
  | returned {a : α} {b : β} (h : R a b) : ResultRel R (.ok a) (.ok b)

section Loop
variable {σ τ ε ε' : Type}

/-- A loop of at most `n` steps. -/
def breakLoop (done : σ → Bool) (step : σ → Except ε (σ × Bool)) :
    ℕ → σ → Except ε (σ × Bool)
  | 0, s => .ok (s, false)
  | n + 1, s =>
    if done s then .ok (s, true)
    else
      match step s with
      | .error e => .error e
      | .ok (s', true) => .ok (s', true)
      | .ok (s', false) => breakLoop done step n s'

/-- The states from which the loop takes a step. -/
inductive BreakVisits (done : σ → Bool) (step : σ → Except ε (σ × Bool)) : ℕ → σ → σ → Prop
  | here {n : ℕ} {s : σ} (hdone : done s = false) : BreakVisits done step (n + 1) s s
  | later {n : ℕ} {s s' s'' : σ} (hdone : done s = false) (hstep : step s = .ok (s', false))
      (h : BreakVisits done step n s' s'') : BreakVisits done step (n + 1) s s''

variable {done : σ → Bool} {step : σ → Except ε (σ × Bool)} {done' : τ → Bool}
  {step' : τ → Except ε' (τ × Bool)}

theorem breakLoop_of_done {s : σ} (h : done s = true) (n : ℕ) :
    breakLoop done step (n + 1) s = .ok (s, true) := by
  rw [breakLoop, if_pos h]

theorem breakLoop_of_raise {s : σ} {e : ε} (h : done s = false) (hstep : step s = .error e)
    (n : ℕ) : breakLoop done step (n + 1) s = .error e := by
  rw [breakLoop, if_neg (by simp [h]), hstep]

theorem breakLoop_of_break {s s' : σ} (h : done s = false) (hstep : step s = .ok (s', true))
    (n : ℕ) : breakLoop done step (n + 1) s = .ok (s', true) := by
  rw [breakLoop, if_neg (by simp [h]), hstep]

theorem breakLoop_of_step {s s' : σ} (h : done s = false) (hstep : step s = .ok (s', false))
    (n : ℕ) : breakLoop done step (n + 1) s = breakLoop done step n s' := by
  rw [breakLoop, if_neg (by simp [h]), hstep]

/-- Loops whose steps are related from related states end in related states. -/
theorem breakLoop_rel (R : σ → τ → Prop) (hdone : ∀ s t, R s t → done s = done' t)
    (hstep : ∀ s t, R s t → done s = false →
      ResultRel (fun p q => R p.1 q.1 ∧ p.2 = q.2) (step s) (step' t)) :
    ∀ (n : ℕ) {s : σ} {t : τ}, R s t → ResultRel (fun p q => R p.1 q.1 ∧ p.2 = q.2)
      (breakLoop done step n s) (breakLoop done' step' n t) := by
  intro n
  induction n with
  | zero => exact fun h => .returned ⟨h, rfl⟩
  | succ n ih =>
    intro s t h
    have hsame := hdone s t h
    cases hs : done s with
    | true =>
      rw [breakLoop_of_done hs, breakLoop_of_done (hsame ▸ hs)]
      exact .returned ⟨h, rfl⟩
    | false =>
      have ht : done' t = false := hsame ▸ hs
      have hrel := hstep s t h hs
      cases hf : step s with
      | error e =>
        cases hg : step' t with
        | error e' =>
          rw [breakLoop_of_raise hs hf, breakLoop_of_raise ht hg]
          exact .raised e e'
        | ok q => rw [hf, hg] at hrel; exact nomatch hrel
      | ok p =>
        cases hg : step' t with
        | error e' => rw [hf, hg] at hrel; exact nomatch hrel
        | ok q =>
          obtain ⟨s', left⟩ := p
          obtain ⟨t', left'⟩ := q
          rw [hf, hg] at hrel
          cases hrel with
          | returned hnext =>
            obtain ⟨hnext, heq⟩ := hnext
            dsimp only at hnext heq
            subst heq
            cases left with
            | true =>
              rw [breakLoop_of_break hs hf, breakLoop_of_break ht hg]
              exact .returned ⟨hnext, rfl⟩
            | false =>
              rw [breakLoop_of_step hs hf, breakLoop_of_step ht hg]
              exact ih hnext

/-- What every step of a loop keeps holds at its end. -/
theorem breakLoop_invariant {Inv : σ → Prop}
    (hstep : ∀ s s' left, Inv s → done s = false → step s = .ok (s', left) → Inv s') :
    ∀ (n : ℕ) {s s' : σ} {left : Bool}, Inv s → breakLoop done step n s = .ok (s', left) →
      Inv s' := by
  intro n
  induction n with
  | zero =>
    intro s s' left h hloop
    rw [breakLoop, Except.ok.injEq, Prod.mk.injEq] at hloop
    exact hloop.1 ▸ h
  | succ n ih =>
    intro s s' left h hloop
    cases hs : done s with
    | true =>
      rw [breakLoop_of_done hs, Except.ok.injEq, Prod.mk.injEq] at hloop
      exact hloop.1 ▸ h
    | false =>
      cases hf : step s with
      | error e =>
        rw [breakLoop_of_raise hs hf] at hloop
        cases hloop
      | ok p =>
        obtain ⟨s'', broke⟩ := p
        have hnext := hstep s s'' broke h hs hf
        cases broke with
        | true =>
          rw [breakLoop_of_break hs hf, Except.ok.injEq, Prod.mk.injEq] at hloop
          exact hloop.1 ▸ hnext
        | false =>
          rw [breakLoop_of_step hs hf] at hloop
          exact ih hnext hloop

/-- What every step of a loop keeps holds wherever it takes a step. -/
theorem BreakVisits.invariant {Inv : σ → Prop}
    (hstep : ∀ s s' left, Inv s → done s = false → step s = .ok (s', left) → Inv s')
    {n : ℕ} {s s' : σ} (h : BreakVisits done step n s s') (hs : Inv s) :
    Inv s' ∧ done s' = false := by
  induction h with
  | here hdone => exact ⟨hs, hdone⟩
  | later hdone hnext _ ih => exact ih (hstep _ _ _ hs hdone hnext)

section Total
variable {Inv : σ → Prop}

/-- A loop whose steps neither raise nor leave it returns. What each step adds to a property is
asked of every state on the way. -/
theorem breakLoop_iff_visits (P Q : σ → Prop)
    (hstep : ∀ s, Inv s → done s = false →
      ∃ s', step s = .ok (s', false) ∧ Inv s' ∧ (P s' ↔ P s ∧ Q s)) :
    ∀ (n : ℕ) {s : σ}, Inv s → ∃ s' left, breakLoop done step n s = .ok (s', left) ∧ Inv s' ∧
      (P s' ↔ P s ∧ ∀ s'', BreakVisits done step n s s'' → Q s'') := by
  intro n
  induction n with
  | zero =>
    intro s h
    refine ⟨s, false, rfl, h, ?_⟩
    exact ⟨fun hP => ⟨hP, fun s'' hvisit => nomatch hvisit⟩, And.left⟩
  | succ n ih =>
    intro s h
    cases hs : done s with
    | true =>
      refine ⟨s, true, breakLoop_of_done hs n, h, ?_, And.left⟩
      intro hP
      refine ⟨hP, fun s'' hvisit => ?_⟩
      cases hvisit with
      | here hdone => rw [hs] at hdone; exact nomatch hdone
      | later hdone _ _ => rw [hs] at hdone; exact nomatch hdone
    | false =>
      obtain ⟨s', heq, hInv, hP⟩ := hstep s h hs
      obtain ⟨s'', left, hloop, hInv', hP'⟩ := ih hInv
      refine ⟨s'', left, by rw [breakLoop_of_step hs heq, hloop], hInv', ?_⟩
      rw [hP', hP]
      constructor
      · rintro ⟨⟨hPs, hQ⟩, hrest⟩
        refine ⟨hPs, fun v hvisit => ?_⟩
        cases hvisit with
        | here _ => exact hQ
        | later _ hnext hvisit =>
          rw [heq, Except.ok.injEq, Prod.mk.injEq] at hnext
          exact hrest v (hnext.1 ▸ hvisit)
      · rintro ⟨hPs, hall⟩
        exact ⟨⟨hPs, hall s (.here hs)⟩, fun v hvisit => hall v (.later hs heq hvisit)⟩

/-- A loop whose steps neither raise nor leave it has taken all its steps, or was left for its
test before. -/
theorem breakLoop_count (count : σ → ℕ)
    (hstep : ∀ s, Inv s → done s = false →
      ∃ s', step s = .ok (s', false) ∧ Inv s' ∧ count s' = count s + 1) :
    ∀ (n : ℕ) {s s' : σ} {left : Bool}, Inv s → breakLoop done step n s = .ok (s', left) →
      (left = false ↔ count s' = count s + n) ∧ count s' ≤ count s + n := by
  intro n
  induction n with
  | zero =>
    intro s s' left h hloop
    rw [breakLoop, Except.ok.injEq, Prod.mk.injEq] at hloop
    simp [← hloop.1, ← hloop.2]
  | succ n ih =>
    intro s s' left h hloop
    cases hs : done s with
    | true =>
      rw [breakLoop_of_done hs, Except.ok.injEq, Prod.mk.injEq] at hloop
      simp [← hloop.1, ← hloop.2]
    | false =>
      obtain ⟨s'', heq, hInv, hcount⟩ := hstep s h hs
      rw [breakLoop_of_step hs heq] at hloop
      obtain ⟨hleft, hle⟩ := ih hInv hloop
      rw [hcount] at hleft hle
      exact ⟨by rw [hleft]; omega, by omega⟩

end Total

end Loop

end NemoRL.Lib
