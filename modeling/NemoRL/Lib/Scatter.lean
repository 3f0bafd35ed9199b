import Mathlib.Data.List.Basic
import Mathlib.Order.MinMax

/-!
# Scattering with reduction

Values are sent to cells, and each cell combines what it receives. Where the operation selects one
of its arguments, as a maximum or a minimum does, a cell ends with the best of its values.

## Main definitions

* `scatterReduce` — combine each value into the cell it is sent to.
* `Selects` — an operation that selects the better of its arguments.

## Main results

* `getElem?_scatterReduce` — a cell combines the values sent to it, in their order.
* `Selects.scatterReduce` — a cell ends with the best of its values.
-/

namespace NemoRL.Lib

variable {α : Type} {op : α → α → α} {r : α → α → Prop}

/-- Combine each value into the cell it is sent to. -/
def scatterReduce (op : α → α → α) (cells : List α) (updates : List (ℕ × α)) : List α :=
  updates.foldl (fun cells u => cells.modify u.1 fun a => op a u.2) cells

/-- A cell combines the values sent to it, in their order. -/
theorem getElem?_scatterReduce (cells : List α) (updates : List (ℕ × α)) (t : ℕ) :
    (scatterReduce op cells updates)[t]? =
      (cells[t]?).map fun a => ((updates.filter fun u => u.1 = t).map Prod.snd).foldl op a := by
  induction updates generalizing cells with
  | nil => simp [scatterReduce]
  | cons u updates ih =>
    rw [scatterReduce, List.foldl_cons, ← scatterReduce, ih, List.getElem?_modify]
    by_cases hu : u.1 = t
    · simp [hu, Function.comp_def]
    · simp [hu]

/-! ## Selecting operations -/

/-- An operation that selects the better of its arguments. -/
structure Selects (r : α → α → Prop) (op : α → α → α) : Prop where
  refl : ∀ a, r a a
  trans : ∀ a b c, r a b → r b c → r a c
  choice : ∀ a b, op a b = a ∨ op a b = b
  left : ∀ a b, r a (op a b)
  right : ∀ a b, r b (op a b)

theorem selects_max [LinearOrder α] : Selects (fun a b : α => a ≤ b) max :=
  ⟨le_refl, fun _ _ _ => le_trans, max_choice, le_max_left, le_max_right⟩

theorem selects_min [LinearOrder α] : Selects (fun a b : α => b ≤ a) min :=
  ⟨le_refl, fun _ _ _ hab hbc => le_trans hbc hab, min_choice, min_le_left, min_le_right⟩

/-- The best of some values is one of them. -/
theorem Selects.foldl (h : Selects r op) (l : List α) (a : α) :
    l.foldl op a ∈ a :: l ∧ ∀ x ∈ a :: l, r x (l.foldl op a) := by
  induction l generalizing a with
  | nil => exact ⟨List.mem_singleton_self a, by simpa using h.refl a⟩
  | cons y l ih =>
    obtain ⟨hmem, hbest⟩ := ih (op a y)
    have hhead := hbest (op a y) List.mem_cons_self
    rw [List.foldl_cons]
    constructor
    · rcases List.mem_cons.mp hmem with heq | hmem
      · rw [heq]
        rcases h.choice a y with hop | hop <;> simp [hop]
      · exact List.mem_cons_of_mem a (List.mem_cons_of_mem y hmem)
    · intro x hx
      rcases List.mem_cons.mp hx with rfl | hx
      · exact h.trans _ _ _ (h.left x y) hhead
      · rcases List.mem_cons.mp hx with rfl | hx
        · exact h.trans _ _ _ (h.right a x) hhead
        · exact hbest x (List.mem_cons_of_mem _ hx)

/-- A cell ends with the best of its values. -/
theorem Selects.scatterReduce (h : Selects r op) {cells : List α} {t : ℕ} {a : α}
    (ha : cells[t]? = some a) (updates : List (ℕ × α)) :
    ∃ m, (scatterReduce op cells updates)[t]? = some m ∧
      (m = a ∨ ∃ u ∈ updates, u.1 = t ∧ u.2 = m) ∧ ∀ u ∈ updates, u.1 = t → r u.2 m := by
  obtain ⟨hmem, hbest⟩ := h.foldl ((updates.filter fun u => u.1 = t).map Prod.snd) a
  refine ⟨_, by rw [getElem?_scatterReduce, ha]; rfl, ?_, ?_⟩
  · refine (List.mem_cons.mp hmem).imp_right fun hm => ?_
    obtain ⟨u, hu, heq⟩ := List.mem_map.mp hm
    rw [List.mem_filter, decide_eq_true_eq] at hu
    exact ⟨u, hu.1, hu.2, heq⟩
  · intro u hu hut
    refine hbest u.2 (List.mem_cons_of_mem a (List.mem_map_of_mem ?_))
    rw [List.mem_filter, decide_eq_true_eq]
    exact ⟨hu, hut⟩

end NemoRL.Lib
