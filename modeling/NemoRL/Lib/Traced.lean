import Mathlib.Data.List.Basic

/-!
# Computations that may crash

A computation changes a state by single operations, one after another, and may raise. It is
run together with its trace, the states after each of its operations, so that a crash at any
point leaves one of them. A rule about such a computation says what holds of every state of
the trace besides what holds of the outcome.

## Main definitions

* `Traced` — a computation with its trace.
* `Traced.crash` — the state that a crash leaves.
* `Traced.Spec` — what holds of the trace and of the outcome.

## Main results

* `Spec.bind`, `Spec.forEach` — the rules for a sequence and for a loop.
-/

namespace NemoRL.Lib

/-- A computation over a state that may raise: the states after each of its operations, and
its outcome. -/
def Traced (σ ε α : Type) := σ → List σ × Except ε (α × σ)

namespace Traced
variable {σ ε α β : Type}

/-- The states after each operation. -/
def trace (m : Traced σ ε α) (s : σ) : List σ := (m s).1

/-- What the computation returns, with the state then. -/
def outcome (m : Traced σ ε α) (s : σ) : Except ε (α × σ) := (m s).2

/-- Run one computation after another. -/
protected def bind (m : Traced σ ε α) (f : α → Traced σ ε β) : Traced σ ε β := fun s =>
  match m.outcome s with
  | .error e => (m.trace s, .error e)
  | .ok (a, s') => (m.trace s ++ (f a).trace s', (f a).outcome s')

instance : Monad (Traced σ ε) where
  pure a := fun s => ([], .ok (a, s))
  bind := Traced.bind

/-- Look at the state. -/
def read (f : σ → α) : Traced σ ε α := fun s => ([], .ok (f s, s))

/-- One operation, which may raise instead. -/
def op (f : σ → Except ε σ) : Traced σ ε Unit := fun s =>
  match f s with
  | .error e => ([], .error e)
  | .ok s' => ([s'], .ok ((), s'))

/-- Run a computation for every element of a list. -/
def forEach (l : List α) (f : α → Traced σ ε Unit) : Traced σ ε Unit :=
  match l with
  | [] => pure ()
  | a :: l => do
    f a
    forEach l f

/-- The state that a crash after some operations leaves. -/
def crash (m : Traced σ ε α) (s : σ) (ops : ℕ) : Option σ := (s :: m.trace s)[ops]?

/-- The state after all operations of the computation, returned or raised. -/
def final (m : Traced σ ε α) (s : σ) : σ := (s :: m.trace s).getLast (by simp)

/-! ## How the trace and the outcome compute -/

@[simp] theorem trace_pure (a : α) (s : σ) : (pure a : Traced σ ε α).trace s = [] := rfl

@[simp] theorem outcome_pure (a : α) (s : σ) :
    (pure a : Traced σ ε α).outcome s = .ok (a, s) := rfl

@[simp] theorem trace_read (f : σ → α) (s : σ) : (read f : Traced σ ε α).trace s = [] := rfl

@[simp] theorem outcome_read (f : σ → α) (s : σ) :
    (read f : Traced σ ε α).outcome s = .ok (f s, s) := rfl

theorem trace_op {f : σ → Except ε σ} {s s' : σ} (h : f s = .ok s') : (op f).trace s = [s'] := by
  simp [trace, op, h]

theorem outcome_op {f : σ → Except ε σ} {s s' : σ} (h : f s = .ok s') :
    (op f).outcome s = .ok ((), s') := by
  simp [outcome, op, h]

theorem trace_bind {m : Traced σ ε α} {f : α → Traced σ ε β} {s s' : σ} {a : α}
    (h : m.outcome s = .ok (a, s')) : (m >>= f).trace s = m.trace s ++ (f a).trace s' := by
  change (Traced.bind m f s).1 = _
  simp [Traced.bind, h]

theorem outcome_bind {m : Traced σ ε α} {f : α → Traced σ ε β} {s s' : σ} {a : α}
    (h : m.outcome s = .ok (a, s')) : (m >>= f).outcome s = (f a).outcome s' := by
  change (Traced.bind m f s).2 = _
  simp [Traced.bind, h]

/-- A crash leaves the state before the computation or one of its trace. -/
theorem mem_of_crash {m : Traced σ ε α} {s s' : σ} {ops : ℕ} (h : m.crash s ops = some s') :
    s' = s ∨ s' ∈ m.trace s :=
  List.mem_cons.mp (List.mem_of_getElem? h)

/-- A computation that runs to its end is one that crashes after all of its operations. -/
theorem crash_length (m : Traced σ ε α) (s : σ) :
    m.crash s (m.trace s).length = some (m.final s) := by
  rw [crash, final, List.getLast_eq_getElem, List.getElem?_eq_getElem (by simp)]
  simp

/-- A crash in a sequence happens in its first or in its second part. -/
theorem crash_bind {m : Traced σ ε α} {f : α → Traced σ ε β} {s s₁ s' : σ} {a : α} {ops : ℕ}
    (hm : m.outcome s = .ok (a, s₁)) (h : (m >>= f).crash s ops = some s') :
    ops ≤ (m.trace s).length ∧ m.crash s ops = some s' ∨
      (m.trace s).length < ops ∧ s' ∈ (f a).trace s₁ := by
  rw [crash, trace_bind hm, ← List.cons_append] at h
  by_cases hops : ops ≤ (m.trace s).length
  · rw [List.getElem?_append_left (by simpa using Nat.lt_succ_of_le hops)] at h
    exact .inl ⟨hops, h⟩
  · rw [List.getElem?_append_right (by
      rw [List.length_cons]
      omega)] at h
    exact .inr ⟨Nat.not_le.mp hops, List.mem_of_getElem? h⟩

/-! ## What holds of the trace and of the outcome -/

/-- From a state with `pre` the computation returns, `post` holds of its outcome, and `mid`
of the state after each of its operations. -/
def Spec (pre : σ → Prop) (m : Traced σ ε α) (mid : σ → Prop) (post : α → σ → Prop) : Prop :=
  ∀ s, pre s → (∀ s' ∈ m.trace s, mid s') ∧ ∃ a s', m.outcome s = .ok (a, s') ∧ post a s'

section Rules
variable {pre pre' mid mid' : σ → Prop} {post post' : α → σ → Prop} {q : β → σ → Prop}
  {m : Traced σ ε α} {f : α → Traced σ ε β}

theorem Spec.mono (h : Spec pre m mid post) (hpre : ∀ s, pre' s → pre s)
    (hmid : ∀ s, mid s → mid' s) (hpost : ∀ a s, post a s → post' a s) :
    Spec pre' m mid' post' := by
  intro s hs
  obtain ⟨htrace, a, s', hout, ha⟩ := h s (hpre s hs)
  exact ⟨fun t ht => hmid t (htrace t ht), a, s', hout, hpost a s' ha⟩

theorem Spec.pure (a : α) (h : ∀ s, pre s → post a s) :
    Spec pre (Pure.pure a : Traced σ ε α) mid post := by
  intro s hs
  exact ⟨by simp, a, s, outcome_pure a s, h s hs⟩

theorem Spec.read (f : σ → α) (h : ∀ s, pre s → post (f s) s) :
    Spec pre (Traced.read f : Traced σ ε α) mid post := by
  intro s hs
  exact ⟨by simp, f s, s, outcome_read f s, h s hs⟩

theorem Spec.op {f : σ → Except ε σ} {post : Unit → σ → Prop}
    (h : ∀ s, pre s → ∃ s', f s = .ok s' ∧ mid s' ∧ post () s') :
    Spec pre (Traced.op f) mid post := by
  intro s hs
  obtain ⟨s', hf, hmid, hpost⟩ := h s hs
  refine ⟨?_, (), s', outcome_op hf, hpost⟩
  intro t ht
  rw [trace_op hf, List.mem_singleton] at ht
  rw [ht]
  exact hmid

/-- The rule for a sequence. -/
theorem Spec.bind (hm : Spec pre m mid post) (hf : ∀ a, Spec (post a) (f a) mid q) :
    Spec pre (m >>= f) mid q := by
  intro s hs
  obtain ⟨htrace, a, s', hout, ha⟩ := hm s hs
  obtain ⟨htrace', b, s'', hout', hb⟩ := hf a s' ha
  refine ⟨?_, b, s'', ?_, hb⟩
  · intro t ht
    rw [trace_bind hout, List.mem_append] at ht
    cases ht with
    | inl ht => exact htrace t ht
    | inr ht => exact htrace' t ht
  · rw [outcome_bind hout, hout']

/-- The rule for a loop, with an invariant about the elements that are left. -/
theorem Spec.forEach {inv : List α → σ → Prop} {f : α → Traced σ ε Unit}
    (h : ∀ a l, Spec (inv (a :: l)) (f a) mid fun _ => inv l) (l : List α) :
    Spec (inv l) (Traced.forEach l f) mid fun _ => inv [] := by
  induction l with
  | nil => exact Spec.pure () fun _ hs => hs
  | cons a l ih => exact (h a l).bind fun _ => ih

end Rules

end Traced
end NemoRL.Lib
