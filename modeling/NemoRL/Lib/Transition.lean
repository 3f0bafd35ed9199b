import Mathlib.Data.List.Basic

/-!
# Labelled transition systems and their runs

A system has initial states and a partial step function on labelled actions. A
run is built from an initial state by steps that all satisfy a side condition
`ok`, which reads the state before the step and the action. With `ok` trivial the
runs are all the runs of the system; with another `ok` a theorem about runs says
which steps it relies on.

## Main definitions

* `System` — initial states and a step function.
* `Run` — the runs whose steps satisfy `ok`, with the steps taken.
* `Reachable` — the states reached by such a run.
* `exec` — execution of a given list of actions.
-/

namespace NemoRL.Lib

universe u v

/-- A labelled transition system: where it may begin, and what an action does in
a state. `none` means that the action is not enabled there. -/
structure System (σ : Type u) (α : Type v) where
  /-- The states in which a run may begin. -/
  init : σ → Prop
  /-- The state after an action, when the action is enabled. -/
  step : σ → α → Option σ

namespace System
variable {σ : Type u} {α : Type v} {T : System σ α} {ok ok' : σ → α → Prop}

/-- A run, latest step first: each entry of the trace holds the state before a
step and the action taken there. -/
inductive Run (T : System σ α) (ok : σ → α → Prop) : List (σ × α) → σ → Prop
  | init {s : σ} (h : T.init s) : Run T ok [] s
  | step {tr : List (σ × α)} {s s' : σ} {a : α} (h : Run T ok tr s) (hok : ok s a)
      (hs : T.step s a = some s') : Run T ok ((s, a) :: tr) s'

/-- The side condition of a run that may take any step. -/
def always (_ : σ) (_ : α) : Prop := True

/-- The states reached by a run whose steps all satisfy `ok`. -/
def Reachable (T : System σ α) (ok : σ → α → Prop) (s : σ) : Prop := ∃ tr, Run T ok tr s

/-- The invariant rule for a property of the state alone. -/
theorem Run.invariant {P : σ → Prop} (hinit : ∀ s, T.init s → P s)
    (hstep : ∀ s a s', P s → ok s a → T.step s a = some s' → P s')
    {tr : List (σ × α)} {s : σ} (h : Run T ok tr s) : P s := by
  induction h with
  | init h => exact hinit _ h
  | step _ hok hs ih => exact hstep _ _ _ ih hok hs

/-- The invariant rule for a property of the state and of the steps that led to
it. -/
theorem Run.invariant_trace {P : List (σ × α) → σ → Prop} (hinit : ∀ s, T.init s → P [] s)
    (hstep : ∀ tr s a s', P tr s → ok s a → T.step s a = some s' → P ((s, a) :: tr) s')
    {tr : List (σ × α)} {s : σ} (h : Run T ok tr s) : P tr s := by
  induction h with
  | init h => exact hinit _ h
  | step _ hok hs ih => exact hstep _ _ _ _ ih hok hs

/-- A run under a condition is a run under every weaker one. -/
theorem Run.mono (hle : ∀ s a, ok s a → ok' s a) {tr : List (σ × α)} {s : σ}
    (h : Run T ok tr s) : Run T ok' tr s := by
  induction h with
  | init h => exact .init h
  | step _ hok hs ih => exact .step ih (hle _ _ hok) hs

/-- Execute a list of actions, first action first. -/
def exec (T : System σ α) : σ → List α → Option σ
  | s, [] => some s
  | s, a :: as => (T.step s a).bind fun s' => T.exec s' as

/-- The pairs of state and action that an execution goes through, latest first. -/
def trace (T : System σ α) : σ → List α → List (σ × α)
  | _, [] => []
  | s, a :: as =>
    match T.step s a with
    | none => []
    | some s' => T.trace s' as ++ [(s, a)]

@[simp] theorem exec_nil (s : σ) : T.exec s [] = some s := rfl

theorem exec_cons (s : σ) (a : α) (as : List α) :
    T.exec s (a :: as) = (T.step s a).bind fun s' => T.exec s' as := rfl

/-- The actions of an execution are those that are executed. -/
theorem mem_trace {s : σ} {as : List α} {p : σ × α} (h : p ∈ T.trace s as) : p.2 ∈ as := by
  induction as generalizing s with
  | nil => exact absurd h List.not_mem_nil
  | cons a as ih =>
    unfold trace at h
    split at h
    · exact absurd h List.not_mem_nil
    · rcases List.mem_append.mp h with h | h
      · exact List.mem_cons_of_mem a (ih h)
      · rw [List.mem_singleton.mp h]
        exact List.mem_cons_self

/-- Executing actions extends a run, when every step taken satisfies `ok`. -/
theorem Run.exec {tr : List (σ × α)} {s s' : σ} (h : Run T ok tr s) (as : List α)
    (hok : ∀ p ∈ T.trace s as, ok p.1 p.2) (he : T.exec s as = some s') :
    Run T ok (T.trace s as ++ tr) s' := by
  induction as generalizing s tr with
  | nil =>
    obtain rfl : s = s' := by simpa using he
    exact h
  | cons a as ih =>
    rw [exec_cons, Option.bind_eq_some_iff] at he
    obtain ⟨t, ht, he⟩ := he
    simp only [trace, ht, List.mem_append, List.mem_singleton] at hok ⊢
    have hstep : Run T ok ((s, a) :: tr) t := .step h (hok _ (.inr rfl)) ht
    simpa using ih hstep (fun p hp => hok p (.inl hp)) he

/-- A state reached by executing actions from an initial state is reachable. -/
theorem Reachable.exec {s s' : σ} (h : T.init s) (as : List α)
    (he : T.exec s as = some s') : T.Reachable always s' :=
  ⟨_, (Run.init h).exec as (fun _ _ => trivial) he⟩

end System
end NemoRL.Lib
