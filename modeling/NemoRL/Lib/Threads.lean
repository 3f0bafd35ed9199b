import Mathlib.Data.List.Basic
import Mathlib.Tactic.Common

/-!
# Threads by number

The threads of a system are a list, a thread is known by its place in it, and a step of a thread
replaces what stands there. What is counted over the threads changes by what the replaced thread
and the new one count, and the other threads stay.

## Main results

* `countP_set_add` — a count after a step of one thread.
* `forall_mem_set` — a property of all threads is kept by a step that keeps it.
* `exists_mem_set` — another thread is still there after a step.
-/

namespace NemoRL.Lib

universe u
variable {τ : Type u} {threads : List τ} {i : ℕ} {t t' : τ}

theorem countP_set_add (p : τ → Bool) (h : threads[i]? = some t) (t' : τ) :
    (threads.set i t').countP p + (if p t then 1 else 0) =
      threads.countP p + if p t' then 1 else 0 := by
  obtain ⟨hi, rfl⟩ := List.getElem?_eq_some_iff.mp h
  have hpos : (if p threads[i] then 1 else 0) ≤ threads.countP p := by
    by_cases hp : p threads[i] = true
    · simpa [hp] using List.countP_pos_iff.mpr ⟨_, List.getElem_mem hi, hp⟩
    · simp [hp]
  rw [List.countP_set hi]
  omega

theorem forall_mem_set {P : τ → Prop} (h : ∀ x ∈ threads, P x) (ht : P t') :
    ∀ x ∈ threads.set i t', P x := by
  intro x hx
  rcases List.mem_or_eq_of_mem_set hx with hx | rfl
  · exact h x hx
  · exact ht

theorem exists_mem_set {P : τ → Prop} (hi : threads[i]? = some t) (h : ∃ x ∈ threads, P x)
    (ht : P t → P t') : ∃ x ∈ threads.set i t', P x := by
  obtain ⟨x, hx, hP⟩ := h
  obtain ⟨j, hj⟩ := List.mem_iff_getElem?.mp hx
  by_cases hij : i = j
  · subst hij
    rw [hj] at hi
    cases hi
    obtain ⟨hlt, -⟩ := List.getElem?_eq_some_iff.mp hj
    exact ⟨t', List.mem_set hlt t', ht hP⟩
  · refine ⟨x, List.mem_iff_getElem?.mpr ⟨j, ?_⟩, hP⟩
    rw [List.getElem?_set_ne hij, hj]

end NemoRL.Lib
