import Mathlib.Algebra.Order.Monoid.Defs
import Mathlib.Algebra.BigOperators.Group.List.Basic
import Mathlib.Data.List.GetD
import Mathlib.Order.Bounds.Basic

/-!
# Best paths

A dynamic program gives every vertex of a graph the best score of a path to it. That no path is
better follows from one inequality for each step; that one is as good is shown by a path.

A table is built from left to right, each entry from those before it, and the best candidate is
kept by a fold that replaces it by a better one.

## Main definitions

* `Path` — the labels along a path from a start.
* `build` — a list of which each entry is computed from those before it.
* `keepBest` — the fold over candidates.

## Main results

* `Path.sum_le` — values that no step exceeds bound all paths.
* `Path.isGreatest` — a path that has the value is a best one.
* `getD_build_eq` — the entries of a built list.
* `cand_le_keepBest`, `keepBest_induction` — the candidate that is kept.
-/

namespace NemoRL.Lib

/-! ## Paths -/

section Path
variable {V E R : Type}

/-- The labels along a path of steps. -/
inductive Path (step : V → E → V → Prop) (start : V) : List E → V → Prop
  | nil : Path step start [] start
  | snoc {es : List E} {v w : V} {e : E} : Path step start es v → step v e w →
      Path step start (es ++ [e]) w

variable [AddCommMonoid R] [PartialOrder R] [IsOrderedAddMonoid R]
variable {step : V → E → V → Prop} {start : V} {score : E → R} {value : V → R}

/-- Values that no step exceeds bound the score of every path. -/
theorem Path.sum_le (hstart : 0 ≤ value start)
    (hstep : ∀ v e w, step v e w → value v + score e ≤ value w) {es : List E} {v : V}
    (h : Path step start es v) : (es.map score).sum ≤ value v := by
  induction h with
  | nil => simpa using hstart
  | @snoc es v w e hpath he ih =>
    calc ((es ++ [e]).map score).sum = (es.map score).sum + score e := by simp
      _ ≤ value v + score e := by gcongr
      _ ≤ value w := hstep v e w he

/-- A path that has the value of its end is a best one. -/
theorem Path.isGreatest (value : V → R) (hstart : 0 ≤ value start)
    (hstep : ∀ v e w, step v e w → value v + score e ≤ value w) {es : List E} {v : V}
    (h : Path step start es v) (hsum : (es.map score).sum = value v) :
    IsGreatest {total | ∃ es, Path step start es v ∧ (es.map score).sum = total} (value v) := by
  refine ⟨⟨es, h, hsum⟩, ?_⟩
  rintro total ⟨es', hpath, rfl⟩
  exact hpath.sum_le hstart hstep

end Path

/-! ## Tables -/

section Build
variable {β : Type} (f : List β → ℕ → β)

/-- A list of which each entry is computed from those before it. -/
def build (n : ℕ) : List β := (List.range n).foldl (fun l i => l ++ [f l i]) []

@[simp] theorem build_zero : build f 0 = [] := rfl

theorem build_succ (n : ℕ) : build f (n + 1) = build f n ++ [f (build f n) n] := by
  rw [build, List.range_succ, List.foldl_append, List.foldl_cons, List.foldl_nil, ← build]

@[simp] theorem length_build (n : ℕ) : (build f n).length = n := by
  induction n with
  | zero => rfl
  | succ n ih => simp [build_succ, ih]

/-- The entries of a built list do not depend on what is added later. -/
theorem getD_build_of_lt {i m n : ℕ} (hi : i < m) (hmn : m ≤ n) (d : β) :
    (build f n).getD i d = (build f m).getD i d := by
  induction n with
  | zero => omega
  | succ n ih =>
    rcases Nat.lt_or_ge n m with hlt | hge
    · have hm : m = n + 1 := by omega
      rw [hm]
    · rw [build_succ, List.getD_append _ _ _ _ (by rw [length_build]; omega), ih hge]

/-- An entry is computed from those before it. -/
theorem getD_build_eq {i n : ℕ} (hi : i < n) (d : β) :
    (build f n).getD i d = f (build f i) i := by
  rw [getD_build_of_lt f (Nat.lt_succ_self i) hi d, build_succ,
    List.getD_append_right _ _ _ _ (by rw [length_build])]
  simp

end Build

/-! ## Candidates -/

section Keep
variable {α M R : Type} [LinearOrder R] (allowed : α → Bool) (cand : α → R) (move : α → M)

/-- Keep the best of an initial score and the allowed candidates, with its move. -/
def keepBest (best : R × M) (l : List α) : R × M :=
  l.foldl (fun best a => if allowed a ∧ best.1 < cand a then (cand a, move a) else best) best

variable {allowed cand move}

theorem keepBest_cons (best : R × M) (a : α) (l : List α) :
    keepBest allowed cand move best (a :: l) = keepBest allowed cand move
      (if allowed a ∧ best.1 < cand a then (cand a, move a) else best) l := rfl

/-- What is kept is at least as good as the initial score. -/
theorem le_keepBest (best : R × M) (l : List α) :
    best.1 ≤ (keepBest allowed cand move best l).1 := by
  induction l generalizing best with
  | nil => exact le_rfl
  | cons a l ih =>
    rw [keepBest_cons]
    refine le_trans ?_ (ih _)
    split
    · next h => exact h.2.le
    · exact le_rfl

/-- It is at least as good as each allowed candidate. -/
theorem cand_le_keepBest (best : R × M) {l : List α} {a : α} (ha : a ∈ l) (hallowed : allowed a) :
    cand a ≤ (keepBest allowed cand move best l).1 := by
  induction l generalizing best with
  | nil => exact absurd ha List.not_mem_nil
  | cons b l ih =>
    rw [keepBest_cons]
    rcases List.mem_cons.mp ha with rfl | ha
    · refine le_trans ?_ (le_keepBest _ _)
      split
      · exact le_rfl
      · next h => exact not_lt.mp fun hlt => h ⟨hallowed, hlt⟩
    · exact ih _ ha

/-- It is the initial one or an allowed candidate. -/
theorem keepBest_eq (best : R × M) (l : List α) :
    keepBest allowed cand move best l = best ∨
      ∃ a ∈ l, allowed a ∧ keepBest allowed cand move best l = (cand a, move a) := by
  induction l generalizing best with
  | nil => exact Or.inl rfl
  | cons b l ih =>
    rw [keepBest_cons]
    rcases ih (if allowed b ∧ best.1 < cand b then (cand b, move b) else best) with h | h
    · rw [h]
      split
      · next hb => exact Or.inr ⟨b, List.mem_cons_self, hb.1, rfl⟩
      · exact Or.inl rfl
    · obtain ⟨a, ha, hallowed, heq⟩ := h
      exact Or.inr ⟨a, List.mem_cons_of_mem b ha, hallowed, heq⟩

/-- What the initial one and the allowed candidates have, the one that is kept has. -/
theorem keepBest_induction {motive : R × M → Prop} {best : R × M} {l : List α}
    (hbest : motive best) (hcand : ∀ a ∈ l, allowed a → motive (cand a, move a)) :
    motive (keepBest allowed cand move best l) := by
  rcases keepBest_eq best l with heq | ⟨a, ha, hallowed, heq⟩
  · rwa [heq]
  · rw [heq]
    exact hcand a ha hallowed

end Keep

end NemoRL.Lib
