import Mathlib.Algebra.BigOperators.Fin
import Mathlib.Algebra.CharZero.Defs
import Mathlib.Algebra.Field.Basic
import Mathlib.Data.Finset.Powerset
import Mathlib.Data.Nat.Choose.Basic
import Mathlib.Tactic.FieldSimp
import Mathlib.Tactic.LinearCombination

/-!
# Subsets that meet a set

Of the subsets of one size those that meet a given set are counted by leaving out the subsets of
its complement. The share that is left out is a quotient of two binomial coefficients, and it can
be computed as a product without any factorial.

## Main results

* `card_powersetCard_meets` — the number of subsets that meet a set.
* `prod_one_sub_div` — a quotient of binomial coefficients as a product.
-/

namespace NemoRL.Lib

variable {α K : Type*}

/-- The subsets of a size that avoid a set are the subsets of its complement. -/
theorem filter_powersetCard_disjoint [DecidableEq α] (s a : Finset α) (k : ℕ) :
    (s.powersetCard k).filter (fun t => ∀ i ∈ t, i ∉ a) = (s \ a).powersetCard k := by
  ext t
  simp only [Finset.mem_filter, Finset.mem_powersetCard, Finset.subset_iff, Finset.mem_sdiff]
  constructor
  · rintro ⟨⟨hsub, hcard⟩, havoid⟩
    exact ⟨fun i hi => ⟨hsub hi, havoid i hi⟩, hcard⟩
  · rintro ⟨hsub, hcard⟩
    exact ⟨⟨fun i hi => (hsub hi).1, hcard⟩, fun i hi => (hsub hi).2⟩

/-- The subsets of a size that meet a set are those that do not lie in its complement. -/
theorem card_powersetCard_meets [DecidableEq α] (s a : Finset α) (k : ℕ) :
    ((s.powersetCard k).filter fun t => ∃ i ∈ t, i ∈ a).card + (s \ a).card.choose k =
      s.card.choose k := by
  have hnot : ∀ t : Finset α, (¬ ∃ i ∈ t, i ∈ a) ↔ ∀ i ∈ t, i ∉ a := by
    intro t
    push Not
    rfl
  rw [← Finset.card_powersetCard k s, ← Finset.card_powersetCard k (s \ a),
    ← filter_powersetCard_disjoint]
  simp only [← hnot]
  exact Finset.card_filter_add_card_filter_not _

/-- A quotient of binomial coefficients is a product over the upper indices between them. -/
theorem prod_one_sub_div [Field K] [CharZero K] {m k : ℕ} (hk : k ≤ m) (d : ℕ) :
    ((List.range d).map fun i => 1 - (k : K) / (m + 1 + i : ℕ)).prod =
      m.choose k / (m + d).choose k := by
  induction d with
  | zero =>
    have hchoose : (m.choose k : K) ≠ 0 := Nat.cast_ne_zero.mpr (Nat.choose_pos hk).ne'
    simp [hchoose]
  | succ d ih =>
    have hchoose : ((m + d).choose k : K) ≠ 0 :=
      Nat.cast_ne_zero.mpr (Nat.choose_pos (by omega)).ne'
    have hchoose' : ((m + d + 1).choose k : K) ≠ 0 :=
      Nat.cast_ne_zero.mpr (Nat.choose_pos (by omega)).ne'
    have hindex : ((m + 1 + d : ℕ) : K) ≠ 0 := Nat.cast_ne_zero.mpr (by omega)
    -- one more upper index: `C(m + d, k) (m + d + 1) = C(m + d + 1, k) (m + d + 1 - k)`
    have hstep : ((m + d).choose k : K) * (m + 1 + d : ℕ) =
        (m + d + 1).choose k * ((m + 1 + d : ℕ) - k) := by
      have hnat := Nat.choose_mul_succ_eq (m + d) k
      rw [show m + 1 + d = m + d + 1 by omega, ← Nat.cast_sub (by omega)]
      exact_mod_cast hnat
    rw [List.range_succ, List.map_append, List.prod_append, ih, List.map_singleton,
      List.prod_singleton, ← Nat.add_assoc]
    field_simp
    linear_combination -(m.choose k : K) * hstep

end NemoRL.Lib
