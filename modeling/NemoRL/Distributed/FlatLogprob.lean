import NemoRL.Distributed.VocabGradients
import NemoRL.Lib.Distribute

/-!
# The backward pass on flat tensors

For tensors of three dimensions `DistributedLogprob` does not build the table that is one at the
chosen tokens. It computes where these entries lie in the flat tensor and adds the incoming
gradient there. The places are found from lists of rows and columns and from what a mask leaves of
them, all in the order of the positions, so they fit together, and different positions have
different places.

## Main results

* `getElem?_flatten3` — where an entry lies in the flat tensor.
* `backward3_eq` — both backward passes return the same.
-/

namespace NemoRL.Distributed

open Lib

section Flat
variable {α : Type} {B S V : ℕ}

/-- The positions in the order of the flat tensor. -/
def positions (B S : ℕ) : List (Fin B × Fin S) := flatten2 fun b s => (b, s)

theorem flatten2_eq (x : Fin B → Fin S → α) :
    flatten2 x = (positions B S).map fun p => x p.1 p.2 := by
  simp [positions, flatten2, List.map_flatMap, Function.comp_def]

theorem finRange_flatMap {n : ℕ} (f : Fin n → List α) :
    (List.finRange n).flatMap f =
      (List.range n).flatMap fun i => if h : i < n then f ⟨i, h⟩ else [] := by
  rw [← List.map_coe_finRange_eq_range, List.flatMap_map]
  exact List.flatMap_congr fun i _ => by rw [dif_pos i.isLt]

/-- Blocks of one length, by the number of the block and the place in it. -/
theorem getElem?_finRange_flatMap {n w o : ℕ} {f : Fin n → List α} (hw : ∀ i, (f i).length = w)
    (i : Fin n) (ho : o < w) : ((List.finRange n).flatMap f)[i * w + o]? = (f i)[o]? := by
  rw [finRange_flatMap, getElem?_flatMap_range (fun j hj => by rw [dif_pos hj, hw]) i.isLt ho,
    dif_pos i.isLt]

theorem length_finRange_flatMap {n w : ℕ} {f : Fin n → List α} (hw : ∀ i, (f i).length = w) :
    ((List.finRange n).flatMap f).length = n * w := by
  simp [List.length_flatMap, hw]

/-- Where an entry lies in the flat tensor. -/
theorem getElem?_flatten3 (x : Fin B → Fin S → Fin V → α) (b : Fin B) (s : Fin S) (v : Fin V) :
    (flatten3 x)[((b : ℕ) * S + s) * V + v]? = some (x b s v) := by
  have hrow : ∀ b s, ((List.finRange V).map (x b s)).length = V := fun b s => by simp
  have hplane : ∀ b, ((List.finRange S).flatMap fun s => (List.finRange V).map (x b s)).length =
      S * V := fun b => length_finRange_flatMap (hrow b)
  have hoffset : (s : ℕ) * V + v < S * V := by
    calc (s : ℕ) * V + v < s * V + V := Nat.add_lt_add_left v.isLt _
      _ = (s + 1) * V := (Nat.succ_mul _ _).symm
      _ ≤ S * V := Nat.mul_le_mul_right V s.isLt
  rw [Nat.add_mul, Nat.mul_assoc, Nat.add_assoc, flatten3,
    getElem?_finRange_flatMap hplane b hoffset,
    getElem?_finRange_flatMap (hrow b) s v.isLt]
  simp

/-- Different entries lie at different places. -/
theorem flatPlace_inj {b b' : Fin B} {s s' : Fin S} {v v' : Fin V}
    (h : ((b : ℕ) * S + s) * V + v = ((b' : ℕ) * S + s') * V + v') : b = b' ∧ s = s' ∧ v = v' := by
  have hsome := getElem?_flatten3 (fun b s v => (b, s, v)) b s v
  rw [h, getElem?_flatten3, Option.some.injEq, Prod.mk.injEq, Prod.mk.injEq] at hsome
  exact ⟨hsome.1.symm, hsome.2.1.symm, hsome.2.2.symm⟩

theorem sum_positions {K : Type} [AddCommMonoid K] (f : Fin B × Fin S → K) :
    ((positions B S).map f).sum = ∑ b, ∑ s, f (b, s) := by
  simp only [positions, flatten2, List.map_flatMap, List.map_map, Function.comp_def]
  rw [List.flatMap, List.sum_flatten, List.map_map, Fin.sum_univ_def]
  simp only [Function.comp_def, Fin.sum_univ_def]

end Flat

namespace DistributedLogprob
variable {B S : ℕ}

/-- What a mask leaves of a flat tensor. -/
theorem maskedSelectNot_map {α : Type} (l : List (Fin B × Fin S)) (f : Fin B × Fin S → α)
    (mask : Fin B × Fin S → Bool) :
    maskedSelectNot (l.map f) (l.map mask) = (l.filter fun p => !mask p).map f := by
  rw [maskedSelectNot, List.zip_map', List.filter_map, List.map_map]
  rfl

theorem sum_map_filter {K : Type} [AddCommMonoid K] (l : List (Fin B × Fin S))
    (q : Fin B × Fin S → Bool) (f : Fin B × Fin S → K) :
    ((l.filter q).map f).sum = (l.map fun p => if q p then f p else 0).sum := by
  induction l with
  | nil => rfl
  | cons p l ih => by_cases hq : q p = true <;> simp [hq, ih]

variable {K : Type} [Field K] [LinearOrder K] (exp log : K → K) {R V : ℕ} [NeZero R] [NeZero V]

omit [LinearOrder K] in
/-- An entry after the scatter is what it was, and the number added at its place. -/
theorem getD_scatterAdd (flat : List K) (l : List (Fin B × Fin S)) (index : Fin B × Fin S → ℕ)
    (src : Fin B × Fin S → K) (n : ℕ) (hn : n < flat.length) :
    (scatterAdd flat (l.map index) (l.map src)).getD n 0 =
      flat.getD n 0 + (l.map fun p => if index p = n then src p else 0).sum := by
  have hfold : ∀ a, (((l.map fun p => (index p, src p)).filter fun u => u.1 = n).map
      Prod.snd).foldl (· + ·) a = a + (l.map fun p => if index p = n then src p else 0).sum := by
    induction l with
    | nil => simp
    | cons p l ih =>
      intro a
      by_cases hp : index p = n
      · simp only [List.map_cons, hp, decide_true, List.filter_cons_of_pos, List.foldl_cons, if_true,
          List.sum_cons, ← add_assoc]
        exact ih (a + src p)
      · simp only [List.map_cons, hp, if_false, List.sum_cons, zero_add, decide_false,
          Bool.false_eq_true, not_false_eq_true, List.filter_cons_of_neg]
        exact ih a
  rw [scatterAdd, List.zip_map', List.getD_eq_getElem?_getD, getElem?_scatterReduce,
    List.getD_eq_getElem?_getD, List.getElem?_eq_getElem hn, Option.map_some, Option.getD_some,
    Option.getD_some, hfold]

/-- Both backward passes return the same. -/
theorem backward3_eq (logits : VocabLogits K R B S V) (target : Fin B → Fin S → ℤ)
    (gradOutput : Fin B → Fin S → K) :
    backward3 exp log logits target gradOutput = backward exp log logits target gradOutput := by
  funext rank b s v
  let unmasked := (positions B S).filter fun p => !targetMask V rank (target p.1 p.2)
  let place := fun p : Fin B × Fin S =>
    ((p.1 : ℕ) * S + p.2) * V + (maskedTarget (V := V) rank (target p.1 p.2) : ℕ)
  have hrows : List.zipWith (fun row col => (row * S + col) * V)
      (flatten2 fun (b : Fin B) (_ : Fin S) => (b : ℕ))
      (flatten2 fun (_ : Fin B) (s : Fin S) => (s : ℕ)) =
      (positions B S).map fun p => ((p.1 : ℕ) * S + p.2) * V := by
    rw [flatten2_eq, flatten2_eq, List.zipWith_map, List.zipWith_self]
  have hindex : List.zipWith (· + ·)
      (unmasked.map fun p => ((p.1 : ℕ) * S + p.2) * V)
      (unmasked.map fun p => (maskedTarget (V := V) rank (target p.1 p.2) : ℕ)) =
      unmasked.map place := by
    rw [List.zipWith_map, List.zipWith_self]
  have hflat := getElem?_flatten3 (fun b s v =>
    -savedSoftmax exp log logits rank b s v * gradOutput b s) b s v
  obtain ⟨hlt, -⟩ := List.getElem?_eq_some_iff.mp hflat
  have hchosen : (unmasked.map fun p =>
      if place p = ((b : ℕ) * S + s) * V + v then gradOutput p.1 p.2 else 0).sum =
      isChosen rank (target b s) v * gradOutput b s := by
    have hother : ∀ b' s', ¬(b' = b ∧ s' = s) →
        place (b', s') ≠ ((b : ℕ) * S + s) * V + v := fun b' s' hne h =>
      hne ⟨(flatPlace_inj h).1, (flatPlace_inj h).2.1⟩
    have hown : place (b, s) = ((b : ℕ) * S + s) * V + v ↔
        v = maskedTarget rank (target b s) := by
      refine ⟨fun h => (flatPlace_inj h).2.2.symm, fun h => ?_⟩
      rw [h]
    rw [sum_map_filter, sum_positions,
      Finset.sum_eq_single b (fun b' _ hb => Finset.sum_eq_zero fun s' _ => by
        rw [if_neg (hother b' s' fun h => hb h.1), ite_self]) (by simp),
      Finset.sum_eq_single s (fun s' _ hs => by
        rw [if_neg (hother b s' fun h => hs h.2), ite_self]) (by simp), isChosen]
    cases hmask : targetMask V rank (target b s) with
    | true => simp
    | false => simp [hown]
  rw [backward3, hrows, flatten2_eq, flatten2_eq, flatten2_eq]
  simp only [maskedSelectNot_map]
  rw [hindex, getD_scatterAdd _ _ _ _ _ hlt, hchosen, List.getD_eq_getElem?_getD, hflat, backward,
    Option.getD_some]
  ring

/-- With all logits zero and two tokens. -/
theorem backward3_eq_two :
    backward3 Real.exp Real.log (fun _ _ _ _ => 0 : VocabLogits ℝ 2 1 1 1) (fun _ _ => 1)
      (fun _ _ => 1) 1 0 0 0 = 1 - (2 : ℝ)⁻¹ := by
  have hmax : ∀ rank v, subtractMax (fun (_ : Fin 2) (_ : Fin 1) => (0 : ℝ)) rank v = 0 := by
    simp [subtractMax, allReduceMax, amax]
  rw [backward3_eq]
  simp [backward, isChosen, targetMask, maskedTarget, savedSoftmax, computeDistributedLogSoftmax,
    hmax, allReduceSum, Real.exp_neg, Real.exp_log]

end DistributedLogprob
end NemoRL.Distributed
