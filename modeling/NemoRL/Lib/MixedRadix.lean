import Mathlib.Algebra.BigOperators.Group.List.Basic
import Mathlib.Algebra.Order.Group.Nat

/-!
# Positions in row-major order

A position in an array of several dimensions has one coordinate in each of them. In row-major
order the last coordinate runs fastest.

## Main definitions

* `unravel` — the coordinates of a position.

## Main results

* `unravel_append_cons` — the coordinates around one dimension.
* `unravel_zero_around_iff` — the positions whose coordinates are zero but in one dimension.
-/

namespace NemoRL.Lib

/-- The coordinates of a position. -/
def unravel : List ℕ → ℕ → List ℕ
  | [], _ => []
  | _ :: sizes, pos => pos / sizes.prod :: unravel sizes (pos % sizes.prod)

@[simp] theorem length_unravel (sizes : List ℕ) (pos : ℕ) :
    (unravel sizes pos).length = sizes.length := by
  induction sizes generalizing pos with
  | nil => rfl
  | cons size sizes ih => simp [unravel, ih]

/-- The coordinates before a dimension, in it, and behind it. -/
theorem unravel_append_cons (before : List ℕ) (size : ℕ) (behind : List ℕ) (pos : ℕ)
    (hpos : pos < (before ++ size :: behind).prod) :
    unravel (before ++ size :: behind) pos =
      unravel before (pos / (size * behind.prod)) ++
        (pos / behind.prod % size) :: unravel behind (pos % behind.prod) := by
  induction before generalizing pos with
  | nil =>
    have hlt : pos / behind.prod < size := by
      rw [List.nil_append, List.prod_cons] at hpos
      exact Nat.div_lt_of_lt_mul (by rwa [Nat.mul_comm])
    rw [List.nil_append, unravel, unravel, List.nil_append, Nat.mod_eq_of_lt hlt]
  | cons first before ih =>
    have hprod : (before ++ size :: behind).prod = before.prod * (size * behind.prod) := by
      rw [List.prod_append, List.prod_cons]
    have hne : (before ++ size :: behind).prod ≠ 0 := by
      intro h0
      rw [List.cons_append, List.prod_cons, h0, Nat.mul_zero] at hpos
      exact absurd hpos (Nat.not_lt_zero _)
    have hmod := Nat.mod_lt pos (Nat.pos_of_ne_zero hne)
    rw [List.cons_append, unravel, ih _ hmod, unravel, List.cons_append, hprod]
    have hfirst : pos / (before.prod * (size * behind.prod)) =
        pos / (size * behind.prod) / before.prod := by
      rw [Nat.div_div_eq_div_mul, Nat.mul_comm]
    have hbefore : pos % (before.prod * (size * behind.prod)) / (size * behind.prod) =
        pos / (size * behind.prod) % before.prod := Nat.mod_mul_left_div_self ..
    have hbehind : pos % (before.prod * (size * behind.prod)) % behind.prod =
        pos % behind.prod :=
      Nat.mod_mod_of_dvd _ (Dvd.intro_left (before.prod * size) (Nat.mul_assoc ..))
    have hmiddle : pos % (before.prod * (size * behind.prod)) / behind.prod % size =
        pos / behind.prod % size := by
      rw [← Nat.mul_assoc, Nat.mod_mul_left_div_self]
      exact Nat.mod_mod_of_dvd _ (Dvd.intro_left _ rfl)
    rw [hfirst, hbefore, hbehind, hmiddle]

/-- All coordinates are zero at the first position only. -/
theorem unravel_zero_iff {sizes : List ℕ} {pos : ℕ} (hpos : pos < sizes.prod) :
    (∀ coord ∈ unravel sizes pos, coord = 0) ↔ pos = 0 := by
  induction sizes generalizing pos with
  | nil =>
    rw [List.prod_nil] at hpos
    simp only [unravel, List.not_mem_nil, false_implies, implies_true, true_iff]
    omega
  | cons size sizes ih =>
    have hne : 0 < sizes.prod := by
      rw [Nat.pos_iff_ne_zero]
      intro h0
      rw [List.prod_cons, h0, Nat.mul_zero] at hpos
      exact absurd hpos (Nat.not_lt_zero _)
    simp only [unravel, List.mem_cons, forall_eq_or_imp, ih (Nat.mod_lt pos hne)]
    constructor
    · rintro ⟨hdiv, hmod⟩
      rw [← Nat.div_add_mod pos sizes.prod, hdiv, hmod, Nat.mul_zero]
    · rintro rfl
      exact ⟨Nat.zero_div _, Nat.zero_mod _⟩

/-- The coordinates around one dimension are zero exactly at the multiples of its stride. -/
theorem unravel_zero_around_iff {before : List ℕ} {size : ℕ} {behind : List ℕ} {pos : ℕ}
    (hpos : pos < (before ++ size :: behind).prod) :
    ((∀ coord ∈ unravel before (pos / (size * behind.prod)), coord = 0) ∧
      ∀ coord ∈ unravel behind (pos % behind.prod), coord = 0) ↔
    ∃ coord, coord < size ∧ pos = coord * behind.prod := by
  have hprod : (before ++ size :: behind).prod = before.prod * (size * behind.prod) := by
    rw [List.prod_append, List.prod_cons]
  rw [hprod] at hpos
  have hblock : 0 < size * behind.prod := by
    rw [Nat.pos_iff_ne_zero]
    intro h0
    rw [h0, Nat.mul_zero] at hpos
    exact absurd hpos (Nat.not_lt_zero _)
  have hbehind : 0 < behind.prod := Nat.pos_of_mul_pos_left hblock
  rw [unravel_zero_iff (Nat.div_lt_of_lt_mul (by rwa [Nat.mul_comm])),
    unravel_zero_iff (Nat.mod_lt pos hbehind), Nat.div_eq_zero_iff_lt hblock]
  constructor
  · rintro ⟨hlt, hmod⟩
    refine ⟨pos / behind.prod, Nat.div_lt_of_lt_mul (by rwa [Nat.mul_comm]), ?_⟩
    exact (Nat.div_mul_cancel (Nat.dvd_of_mod_eq_zero hmod)).symm
  · rintro ⟨coord, hcoord, rfl⟩
    exact ⟨Nat.mul_lt_mul_of_pos_right hcoord hbehind, Nat.mul_mod_left ..⟩

end NemoRL.Lib
