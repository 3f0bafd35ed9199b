import Mathlib.Analysis.SpecialFunctions.Log.Basic
import NemoRL.Lib.CountedMean
import NemoRL.Loss.GoldLoss

/-!
# The gold loss of microbatches

Every valid chunk adds its own loss to the total of a call, which is divided by the number of
valid chunks of the ranks in this call. The losses of a step whose rows are split into ranks
add up to the loss of all rows; those of rows that are split into several calls do so exactly
when at most one of the calls has valid chunks, or when there are no tokens to compare. The
cross entropies always add up.

## Main definitions

* `Split` — the rows of a step, in microbatches on ranks.
* `Split.AtMostOneStep` — valid chunks are in one call.

## Main results

* `GoldLossFn.sum_goldRun` — the losses of a run.
* `goldSplit_iff` — when the losses add up.
-/

namespace NemoRL.Loss

open Lib

variable {K : Type} [Field K] [LinearOrder K] {Vs Vt pad S Tt C : ℕ}

theorem sum_map_flatMap {ι κ A : Type} [AddCommMonoid A] (xs : List ι) (g : ι → List κ)
    (f : κ → A) :
    ((xs.flatMap g).map f).sum = (xs.map fun x => ((g x).map f).sum).sum := by
  induction xs with
  | nil => simp
  | cons x xs ih =>
    rw [List.flatMap_cons, List.map_append, List.sum_append, ih, List.map_cons, List.sum_cons]

omit [LinearOrder K] in
/-- A sum with a mask is the sum over what the mask selects. -/
theorem sum_map_mul_ite {ι : Type} (xs : List ι) (f : ι → K) (p : ι → Bool) :
    (xs.map fun x => f x * if p x then 1 else 0).sum = ((xs.filter p).map f).sum := by
  induction xs with
  | nil => simp
  | cons x xs ih =>
    rw [List.map_cons, List.sum_cons, ih]
    cases hp : p x <;> simp [hp]

/-! ## Splits -/

/-- The rows of a step, split into ranks with the same number of microbatches. -/
structure Split (R M B : ℕ) where
  part : Fin R → Fin M → List (Fin B)
  perm : ((List.finRange R).flatMap fun r => (List.finRange M).flatMap (part r)).Perm
    (List.finRange B)

namespace Split
variable {R M B : ℕ} (split : Split R M B)

/-- The sum over the parts is the sum over the rows. -/
theorem sum_part {A : Type} [AddCommMonoid A] (f : Fin B → A) :
    ∑ k, ∑ r, ((split.part r k).map f).sum = ((List.finRange B).map f).sum := by
  rw [← (split.perm.map f).sum_eq, Finset.sum_comm, Fin.sum_univ_def]
  simp only [Fin.sum_univ_def, sum_map_flatMap]

/-- How often a row is in a step. -/
def occurrences (i : Fin B) (k : Fin M) : ℕ :=
  ∑ r, ((split.part r k).map fun j => if j = i then 1 else 0).sum

theorem occurrences_pos {i : Fin B} {r : Fin R} {k : Fin M} (h : i ∈ split.part r k) :
    0 < split.occurrences i k := by
  have hone : 1 ≤ ((split.part r k).map fun j => if j = i then 1 else 0).sum := by
    refine List.single_le_sum (fun _ _ => Nat.zero_le _) 1 (List.mem_map.mpr ⟨i, h, ?_⟩)
    rw [if_pos rfl]
  exact hone.trans (Finset.single_le_sum (f := fun r =>
    ((split.part r k).map fun j => if j = i then 1 else 0).sum) (fun _ _ => Nat.zero_le _)
    (Finset.mem_univ r))

/-- A row is in one step only. -/
theorem occurrences_eq_zero {i : Fin B} {r : Fin R} {k k' : Fin M} (h : i ∈ split.part r k)
    (hne : k' ≠ k) : split.occurrences i k' = 0 := by
  have hsum : ∑ k, split.occurrences i k = 1 := by
    rw [show (fun k => split.occurrences i k) = fun k =>
      ∑ r, ((split.part r k).map fun j => if j = i then 1 else 0).sum from rfl, split.sum_part,
      ← Fin.sum_univ_def, Finset.sum_ite_eq' Finset.univ i, if_pos (Finset.mem_univ i)]
  have hpair : ∑ k ∈ {k, k'}, split.occurrences i k ≤ ∑ k, split.occurrences i k :=
    Finset.sum_le_sum_of_subset (Finset.subset_univ _)
  rw [Finset.sum_pair hne.symm, hsum] at hpair
  have hpos := split.occurrences_pos h
  omega

omit [LinearOrder K] in
/-- The total of a step in which only one row adds to it. -/
theorem sum_single {i : Fin B} {f : Fin B → K} (hf : ∀ j, j ≠ i → f j = 0) (k : Fin M) :
    ∑ r, ((split.part r k).map f).sum = split.occurrences i k * f i := by
  have hrow : f = fun j => (if j = i then 1 else 0) * f i := by
    funext j
    by_cases hj : j = i
    · rw [if_pos hj, one_mul, hj]
    · rw [if_neg hj, zero_mul, hf j hj]
  rw [occurrences, Nat.cast_sum, Finset.sum_mul]
  refine Finset.sum_congr rfl fun r _ => ?_
  rw [hrow, List.sum_map_mul_right, Nat.cast_list_sum, List.map_map]
  simp [Function.comp_def]

end Split

/-! ## The losses of a run -/

theorem sum_l1Loss_nonneg [IsStrictOrderedRing K] (xs ys : List K) : 0 ≤ (l1Loss xs ys).sum := by
  refine List.sum_nonneg fun x hx => ?_
  rw [l1Loss] at hx
  obtain ⟨i, hi, rfl⟩ := List.mem_iff_getElem.mp hx
  rw [List.getElem_zipWith]
  exact abs_nonneg _

/-- The number of chunks of a sample that count. -/
def LocalizedAlignment.numValid (align : LocalizedAlignment K S Tt C) : ℕ :=
  ((List.finRange C).filter fun c => align.validChunk c).length

theorem length_validChunks (rows : List (GoldRow K Vs Vt pad S Tt C)) :
    (validChunks rows).length = (rows.map fun row => row.align.numValid).sum := by
  simp [validChunks, List.length_flatMap, LocalizedAlignment.numValid]

theorem sum_validChunks (rows : List (GoldRow K Vs Vt pad S Tt C))
    (f : GoldRow K Vs Vt pad S Tt C → Fin C → K) :
    ((validChunks rows).map fun chunk => f chunk.1 chunk.2).sum = (rows.map fun row =>
      (((List.finRange C).filter fun c => row.align.validChunk c).map (f row)).sum).sum := by
  rw [validChunks, sum_map_flatMap]
  simp only [List.map_map, Function.comp_def]

namespace GoldLossFn
variable (fn : GoldLossFn K) (exp log : K → K) (map : ExactTokenMap Vs Vt)

/-- What a chunk adds to the total. -/
def chunkLoss (row : GoldRow K Vs Vt pad S Tt C) (c : Fin C) : K :=
  fn.klPerChunk exp log map row c + fn.l1PerChunk exp log map row c

/-- What a sample adds to the total. -/
def rowLoss (row : GoldRow K Vs Vt pad S Tt C) : K :=
  (((List.finRange C).filter fun c => row.align.validChunk c).map
    (fn.chunkLoss exp log map row)).sum

omit [LinearOrder K] in
theorem klPerChunk_nil (hmap : map.common = []) (row : GoldRow K Vs Vt pad S Tt C) (c : Fin C) :
    fn.klPerChunk exp log map row c = 0 := by
  simp [klPerChunk, hmap]

theorem l1PerChunk_nil (hmap : fn.maxUncommon map ≤ 0) (row : GoldRow K Vs Vt pad S Tt C)
    (c : Fin C) : fn.l1PerChunk exp log map row c = 0 := by
  have hk : (fn.maxUncommon map).toNat = 0 := by omega
  have hsorted : ∀ xs : List K,
      (if 0 < xs.length then topk xs 0 else sortDescending xs) = [] := by
    intro xs
    cases xs <;> simp [topk, sortDescending]
  rw [l1PerChunk, hk]
  simp only [hsorted, l1Loss]
  simp

theorem l1PerChunk_nonneg [IsStrictOrderedRing K] (row : GoldRow K Vs Vt pad S Tt C)
    (c : Fin C) : 0 ≤ fn.l1PerChunk exp log map row c :=
  sum_l1Loss_nonneg _ _

/-- The loss of a call. -/
theorem computeGold_loss {globalValidChunks : ℕ} {rows : List (GoldRow K Vs Vt pad S Tt C)}
    (h : globalValidChunks = 0 → (validChunks rows).length = 0) :
    (fn.computeGold exp log map globalValidChunks rows).loss =
      countedMean globalValidChunks (rows.map (fn.rowLoss exp log map)).sum *
        (fn.temperature * fn.temperature) := by
  have htotal : (rows.map (fn.rowLoss exp log map)).sum =
      ((validChunks rows).map fun chunk => fn.klPerChunk exp log map chunk.1 chunk.2).sum +
        ((validChunks rows).map fun chunk => fn.l1PerChunk exp log map chunk.1 chunk.2).sum := by
    rw [← List.sum_map_add]
    exact (sum_validChunks rows (fn.chunkLoss exp log map)).symm
  by_cases hzero : globalValidChunks = 0
  · have hnil := List.length_eq_zero_iff.mp (h hzero)
    rw [computeGold, if_pos hzero, htotal, hnil]
    simp
  · have hkl : (if 0 < map.common.length then
          (rows.map fun row => ((List.finRange C).map fun c =>
            fn.klPerChunk exp log map row c * if row.align.validChunk c then 1 else 0).sum).sum /
            max (globalValidChunks : K) 1
        else 0) = ((validChunks rows).map fun chunk =>
          fn.klPerChunk exp log map chunk.1 chunk.2).sum / max (globalValidChunks : K) 1 := by
      simp only [sum_map_mul_ite, ← sum_validChunks]
      split
      · rfl
      · rename_i hcommon
        have hnil := List.length_eq_zero_iff.mp (Nat.eq_zero_of_not_pos hcommon)
        simp [klPerChunk_nil, hnil]
    have hl1 : (if 0 < map.uncommonStudent.length ∨ 0 < map.uncommonTeacher.length then
          if 0 < (validChunks rows).length ∧ 0 < fn.maxUncommon map then
            ((validChunks rows).map fun chunk =>
              fn.l1PerChunk exp log map chunk.1 chunk.2).sum / max (globalValidChunks : K) 1
          else 0
        else 0) = ((validChunks rows).map fun chunk =>
          fn.l1PerChunk exp log map chunk.1 chunk.2).sum / max (globalValidChunks : K) 1 := by
      by_cases hmax : 0 < fn.maxUncommon map
      · have hsome : 0 < map.uncommonStudent.length ∨ 0 < map.uncommonTeacher.length := by
          rw [maxUncommon] at hmax
          omega
        rw [if_pos hsome]
        by_cases hlen : 0 < (validChunks rows).length
        · rw [if_pos ⟨hlen, hmax⟩]
        · rw [if_neg fun hboth => hlen hboth.1,
            List.length_eq_zero_iff.mp (Nat.eq_zero_of_not_pos hlen)]
          simp
      · simp [hmax, l1PerChunk_nil fn exp log map (not_lt.mp hmax)]
    rw [computeGold, if_neg hzero, htotal]
    simp only [hkl, hl1]
    rw [countedMean, add_div]

/-- The losses of the ranks of a call. -/
theorem sum_goldStep {R : ℕ} (ranks : Fin R → List (GoldRow K Vs Vt pad S Tt C)) :
    ((fn.goldStep exp log map ((List.finRange R).map ranks)).map GoldLoss.loss).sum =
      countedMean (∑ r, ((ranks r).map fun row => row.align.numValid).sum)
        (∑ r, ((ranks r).map (fn.rowLoss exp log map)).sum) *
          (fn.temperature * fn.temperature) := by
  have hcount : (((List.finRange R).map ranks).map fun rows => (validChunks rows).length).sum =
      ∑ r, ((ranks r).map fun row => row.align.numValid).sum := by
    rw [List.map_map, ← Fin.sum_univ_def]
    exact Finset.sum_congr rfl fun r _ => length_validChunks (ranks r)
  rw [goldStep, hcount, List.map_map, List.map_map, ← Fin.sum_univ_def, ← countedMean_sum,
    Finset.sum_mul]
  refine Finset.sum_congr rfl fun r _ => computeGold_loss fn exp log map fun hzero => ?_
  rw [length_validChunks]
  exact Finset.sum_eq_zero_iff.mp hzero r (Finset.mem_univ r)

/-- The losses of a run. -/
theorem sum_goldRun {R M : ℕ}
    (microbatch : Fin R → Fin M → List (GoldRow K Vs Vt pad S Tt C)) :
    ((fn.goldRun exp log map microbatch).map GoldLoss.loss).sum =
      (∑ k, countedMean (∑ r, ((microbatch r k).map fun row => row.align.numValid).sum)
        (∑ r, ((microbatch r k).map (fn.rowLoss exp log map)).sum)) *
          (fn.temperature * fn.temperature) := by
  rw [goldRun, sum_map_flatMap, ← Fin.sum_univ_def, Finset.sum_mul]
  exact Finset.sum_congr rfl fun k _ => sum_goldStep fn exp log map fun r => microbatch r k

end GoldLossFn

/-! ## Calls with valid chunks -/

namespace Split
variable {R M B : ℕ} (split : Split R M B)

/-- A call has valid chunks on some rank. -/
def HasValidChunk (align : Fin B → LocalizedAlignment K S Tt C) (k : Fin M) : Prop :=
  ∃ r, ∃ i ∈ split.part r k, ∃ c, (align i).validChunk c

/-- All valid chunks are in one call. -/
def AtMostOneStep (align : Fin B → LocalizedAlignment K S Tt C) : Prop :=
  ∀ k k', split.HasValidChunk align k → split.HasValidChunk align k' → k = k'

instance (align : Fin B → LocalizedAlignment K S Tt C) : Decidable (split.AtMostOneStep align) :=
  inferInstanceAs (Decidable (∀ k k' : Fin M,
    (∃ r, ∃ i ∈ split.part r k, ∃ c, (align i).validChunk c) →
      (∃ r, ∃ i ∈ split.part r k', ∃ c, (align i).validChunk c) → k = k'))

/-- The number of valid chunks of a call. -/
def stepCount (align : Fin B → LocalizedAlignment K S Tt C) (k : Fin M) : ℕ :=
  ∑ r, ((split.part r k).map fun i => (align i).numValid).sum

theorem numValid_ne_zero (align : LocalizedAlignment K S Tt C) :
    align.numValid ≠ 0 ↔ ∃ c, align.validChunk c := by
  rw [LocalizedAlignment.numValid, ← Nat.pos_iff_ne_zero, List.length_pos_iff_exists_mem]
  simp

theorem stepCount_ne_zero (align : Fin B → LocalizedAlignment K S Tt C) (k : Fin M) :
    split.stepCount align k ≠ 0 ↔ split.HasValidChunk align k := by
  simp only [stepCount, HasValidChunk, ne_eq, Finset.sum_eq_zero_iff, List.sum_eq_zero_iff,
    List.mem_map, forall_exists_index, and_imp, forall_apply_eq_imp_iff₂, ← numValid_ne_zero]
  simp

end Split

/-! ## The losses of a split -/

section Splits
variable {R M B : ℕ} (split : Split R M B) (fn : GoldLossFn K) (exp log : K → K)
  (map : ExactTokenMap Vs Vt)

/-- The same sample with other logits. -/
def GoldRow.withLogits (row : GoldRow K Vs Vt pad S Tt C) (studentLogits : Fin S → Fin Vs → K)
    (teacherFullLogits : Fin Tt → Fin (Vt + pad) → K) : GoldRow K Vs Vt pad S Tt C :=
  { row with studentLogits := studentLogits, teacherFullLogits := teacherFullLogits }

/-- What the rows of a call add to the total. -/
def Split.stepTotal (rows : Fin B → GoldRow K Vs Vt pad S Tt C) (k : Fin M) : K :=
  ∑ r, ((split.part r k).map fun i => fn.rowLoss exp log map (rows i)).sum

theorem sum_goldRun_split (rows : Fin B → GoldRow K Vs Vt pad S Tt C) :
    ((fn.goldRun exp log map fun r k => (split.part r k).map rows).map GoldLoss.loss).sum =
      (∑ k, countedMean (split.stepCount (fun i => (rows i).align) k)
        (split.stepTotal fn exp log map rows k)) * (fn.temperature * fn.temperature) := by
  rw [GoldLossFn.sum_goldRun]
  simp only [List.map_map]
  rfl

/-- The loss of all rows in one call on one rank. -/
theorem sum_goldStep_whole (rows : Fin B → GoldRow K Vs Vt pad S Tt C) :
    ((fn.goldStep exp log map [(List.finRange B).map rows]).map GoldLoss.loss).sum =
      countedMean (∑ k, split.stepCount (fun i => (rows i).align) k)
        (∑ k, split.stepTotal fn exp log map rows k) * (fn.temperature * fn.temperature) := by
  have hrank := GoldLossFn.sum_goldStep fn exp log map fun _ : Fin 1 => (List.finRange B).map rows
  simp only [Finset.univ_unique, Finset.sum_singleton, List.map_map] at hrank
  simp only [Split.stepCount, Split.stepTotal, split.sum_part]
  exact hrank

theorem GoldLossFn.rowLoss_eq_zero {row : GoldRow K Vs Vt pad S Tt C}
    (h : row.align.numValid = 0) : fn.rowLoss exp log map row = 0 := by
  rw [rowLoss, List.length_eq_zero_iff.mp h, List.map_nil, List.sum_nil]

/-- The losses add up when all valid chunks are in one call. -/
theorem Split.sum_goldRun_of_atMostOneStep (rows : Fin B → GoldRow K Vs Vt pad S Tt C)
    (h : split.AtMostOneStep fun i => (rows i).align) :
    ((fn.goldRun exp log map fun r k => (split.part r k).map rows).map GoldLoss.loss).sum =
      ((fn.goldStep exp log map [(List.finRange B).map rows]).map GoldLoss.loss).sum := by
  rw [sum_goldRun_split, sum_goldStep_whole split]
  congr 1
  apply sum_countedMean
  · intro k hk
    refine Finset.sum_eq_zero fun r hr => List.sum_eq_zero fun x hx => ?_
    obtain ⟨i, hi, rfl⟩ := List.mem_map.mp hx
    have hrow := List.sum_eq_zero_iff.mp (Finset.sum_eq_zero_iff.mp hk r hr)
    exact fn.rowLoss_eq_zero exp log map (hrow _ (List.mem_map_of_mem hi))
  · intro k k' hk hk'
    exact h k k' ((split.stepCount_ne_zero _ k).mp hk) ((split.stepCount_ne_zero _ k').mp hk')

/-- The losses add up when there is nothing to compare. -/
theorem sum_goldRun_of_nil (rows : Fin B → GoldRow K Vs Vt pad S Tt C)
    (hcommon : map.common = []) (hmax : fn.maxUncommon map ≤ 0) :
    ((fn.goldRun exp log map fun r k => (split.part r k).map rows).map GoldLoss.loss).sum =
      ((fn.goldStep exp log map [(List.finRange B).map rows]).map GoldLoss.loss).sum := by
  have hrow : ∀ row : GoldRow K Vs Vt pad S Tt C, fn.rowLoss exp log map row = 0 := by
    intro row
    refine List.sum_eq_zero fun x hx => ?_
    obtain ⟨c, -, rfl⟩ := List.mem_map.mp hx
    rw [GoldLossFn.chunkLoss, fn.klPerChunk_nil exp log map hcommon,
      fn.l1PerChunk_nil exp log map hmax, add_zero]
  have htotal : ∀ k, split.stepTotal fn exp log map rows k = 0 := fun k => by
    simp [Split.stepTotal, hrow]
  rw [sum_goldRun_split, sum_goldStep_whole split]
  simp [htotal]

end Splits

/-! ## Logits for which they do not add up -/

section Probe
variable (fn : GoldLossFn K) (map : ExactTokenMap Vs Vt)

omit [LinearOrder K] in
/-- The averages of equal log probabilities. -/
theorem chunkAverage_const {n V : ℕ} (x : K) (chunkId : Fin n → ℤ) (c : Fin C) (v : Fin V) :
    (chunkAverageLogProbs (fun _ _ => x) chunkId c).1 v =
      chunkSizes chunkId c * x / (chunkSizes chunkId c + 1 / 10 ^ 10) := by
  simp only [chunkAverageLogProbs, chunkLogProbSums, chunkAverageFinalize, Nat.cast_pow,
    Nat.cast_ofNat]
  rw [← Finset.sum_mul, Finset.sum_boole]
  rfl

omit [LinearOrder K] in
@[simp] theorem logSoftmax_zero {V : ℕ} (xs : Fin V → K) :
    logSoftmax id (fun _ => 0) xs = xs := by
  ext v
  simp [logSoftmax]

omit [Field K] in
theorem sortDescending_replicate (n : ℕ) (x : K) :
    sortDescending (List.replicate n x) = List.replicate n x :=
  List.perm_replicate.mp (List.perm_insertionSort _ _)

omit [Field K] in
/-- The largest of equal values. -/
theorem topUncommon_replicate {n k : ℕ} (h : k ≤ n) (x : K) :
    (if k < n then topk (List.replicate n x) k else sortDescending (List.replicate n x)) =
      List.replicate k x := by
  rw [topk, sortDescending_replicate, List.take_replicate, min_eq_left h]
  split
  · rfl
  · rw [show n = k by omega]

namespace GoldLossFn

omit [LinearOrder K] in
theorem klPerChunk_const {exp log : K → K} {row : GoldRow K Vs Vt pad S Tt C} {c : Fin C}
    {s t : K} (hs : ∀ v, fn.studentChunks exp log row c v = s)
    (ht : ∀ v, fn.teacherChunks exp log row c v = t) :
    fn.klPerChunk exp log map row c =
      map.common.length * if fn.reverseKl then klDiv exp t s else klDiv exp s t := by
  simp only [klPerChunk, hs, ht, List.map_const', List.sum_replicate, nsmul_eq_mul]

theorem l1PerChunk_const {exp log : K → K} {row : GoldRow K Vs Vt pad S Tt C} {c : Fin C}
    {s t : K} (hs : ∀ v, fn.studentChunks exp log row c v = s)
    (ht : ∀ v, fn.teacherChunks exp log row c v = t) :
    fn.l1PerChunk exp log map row c = (fn.maxUncommon map).toNat * |exp s - exp t| := by
  have hle : (fn.maxUncommon map).toNat ≤ map.uncommonStudent.length ∧
      (fn.maxUncommon map).toNat ≤ map.uncommonTeacher.length := by
    rw [maxUncommon]
    omega
  simp only [l1PerChunk, hs, ht, List.map_const', topUncommon_replicate hle.1,
    topUncommon_replicate hle.2, List.length_replicate, min_self, List.take_replicate, l1Loss,
    List.zipWith_replicate, List.sum_replicate, nsmul_eq_mul]

/-- A sample whose log probabilities are the same at all positions, when the exponential is
the identity and the logarithm is zero. -/
def probe (row : GoldRow K Vs Vt pad S Tt C) (s t : K) : GoldRow K Vs Vt pad S Tt C :=
  row.withLogits (fun _ _ => s * fn.temperature) fun _ _ => t * fn.temperature

variable (row : GoldRow K Vs Vt pad S Tt C) (s t : K) (c : Fin C)

omit [LinearOrder K] in
theorem studentChunks_probe (v : Fin Vs) :
    fn.studentChunks id (fun _ => 0) (fn.probe row s t) c v =
      chunkSizes row.align.studentChunkId c * s /
        (chunkSizes row.align.studentChunkId c + 1 / 10 ^ 10) := by
  rw [← chunkAverage_const s row.align.studentChunkId c v, studentChunks]
  simp [probe, GoldRow.withLogits, fn.temperature_ne]

omit [LinearOrder K] in
theorem teacherChunks_probe (v : Fin Vt) :
    fn.teacherChunks id (fun _ => 0) (fn.probe row s t) c v =
      chunkSizes row.align.teacherChunkId c * t /
        (chunkSizes row.align.teacherChunkId c + 1 / 10 ^ 10) := by
  rw [← chunkAverage_const t row.align.teacherChunkId c v, teacherChunks]
  simp [probe, GoldRow.withLogits, fn.temperature_ne]

variable [IsStrictOrderedRing K]

/-- Without logits there is nothing to compare. -/
theorem chunkLoss_probe_zero : fn.chunkLoss id (fun _ => 0) map (fn.probe row 0 0) c = 0 := by
  have hs : ∀ v, fn.studentChunks id (fun _ => 0) (fn.probe row 0 0) c v = 0 := fun v => by
    rw [studentChunks_probe, mul_zero, zero_div]
  have ht : ∀ v, fn.teacherChunks id (fun _ => 0) (fn.probe row 0 0) c v = 0 := fun v => by
    rw [teacherChunks_probe, mul_zero, zero_div]
  rw [chunkLoss, klPerChunk_const fn map hs ht, l1PerChunk_const fn map hs ht]
  simp [klDiv]

/-- The sample with logits on the side of the target of the divergence only. -/
def probeTarget : GoldRow K Vs Vt pad S Tt C :=
  if fn.reverseKl then fn.probe row 1 0 else fn.probe row 0 1

omit [LinearOrder K] [IsStrictOrderedRing K] in
theorem align_probeTarget : (fn.probeTarget row).align = row.align := by
  rw [probeTarget]
  split <;> rfl

/-- With logits on the side of the target the loss of a valid chunk is positive. -/
theorem chunkLoss_probeTarget_pos (hmap : map.common ≠ [] ∨ 0 < fn.maxUncommon map)
    (hvalid : row.align.validChunk c) :
    0 < fn.chunkLoss id (fun _ => 0) map (fn.probeTarget row) c := by
  have hsizes : 0 < chunkSizes row.align.studentChunkId c ∧
      0 < chunkSizes row.align.teacherChunkId c := by
    simp only [LocalizedAlignment.validChunk, validChunkMask, Bool.and_eq_true,
      decide_eq_true_eq] at hvalid
    exact hvalid.1.1
  have havg : ∀ n : ℕ, 0 < n → (0 : K) < n * 1 / (n + 1 / 10 ^ 10) := by
    intro n hn
    have hcast : (0 : K) < n := Nat.cast_pos.mpr hn
    have heps : (0 : K) < 1 / 10 ^ 10 := div_pos one_pos (pow_pos (by norm_num) 10)
    exact div_pos (mul_pos hcast one_pos) (add_pos hcast heps)
  -- whichever side has logits, with averages `x`
  have hpos : ∀ x : K, 0 < x →
      0 < (map.common.length : K) * (x * x) + (fn.maxUncommon map).toNat * x := by
    intro x hx
    obtain hcommon | hmax := hmap
    · have hlen : (0 : K) < map.common.length :=
        Nat.cast_pos.mpr (List.length_pos_iff.mpr hcommon)
      positivity
    · have hk : (0 : K) < (fn.maxUncommon map).toNat := Nat.cast_pos.mpr (by omega)
      positivity
  cases hreverse : fn.reverseKl
  · have hs : ∀ v, fn.studentChunks id (fun _ => 0) (fn.probe row 0 1) c v = 0 := fun v => by
      rw [studentChunks_probe, mul_zero, zero_div]
    obtain ⟨x, hx, ht⟩ : ∃ x, 0 < x ∧
        ∀ v, fn.teacherChunks id (fun _ => 0) (fn.probe row 0 1) c v = x :=
      ⟨_, havg _ hsizes.2, teacherChunks_probe fn row 0 1 c⟩
    rw [probeTarget, hreverse, if_neg Bool.false_ne_true, chunkLoss,
      klPerChunk_const fn map hs ht, l1PerChunk_const fn map hs ht, hreverse]
    simpa [klDiv, abs_of_pos hx] using hpos _ hx
  · have ht : ∀ v, fn.teacherChunks id (fun _ => 0) (fn.probe row 1 0) c v = 0 := fun v => by
      rw [teacherChunks_probe, mul_zero, zero_div]
    obtain ⟨x, hx, hs⟩ : ∃ x, 0 < x ∧
        ∀ v, fn.studentChunks id (fun _ => 0) (fn.probe row 1 0) c v = x :=
      ⟨_, havg _ hsizes.1, studentChunks_probe fn row 1 0 c⟩
    rw [probeTarget, hreverse, if_pos rfl, chunkLoss,
      klPerChunk_const fn map hs ht, l1PerChunk_const fn map hs ht, hreverse]
    simpa [klDiv, abs_of_pos hx] using hpos _ hx

theorem rowLoss_probe_zero : fn.rowLoss id (fun _ => 0) map (fn.probe row 0 0) = 0 := by
  refine List.sum_eq_zero fun x hx => ?_
  obtain ⟨c, -, rfl⟩ := List.mem_map.mp hx
  exact chunkLoss_probe_zero fn map row c

theorem rowLoss_probeTarget_pos (hmap : map.common ≠ [] ∨ 0 < fn.maxUncommon map)
    (hvalid : row.align.validChunk c) :
    0 < fn.rowLoss id (fun _ => 0) map (fn.probeTarget row) := by
  rw [rowLoss, align_probeTarget]
  apply List.sum_pos
  · intro x hx
    obtain ⟨c', hc', rfl⟩ := List.mem_map.mp hx
    exact chunkLoss_probeTarget_pos fn map row c' hmap (List.mem_filter.mp hc').2
  · refine List.ne_nil_of_mem (List.mem_map_of_mem (List.mem_filter.mpr ⟨?_, hvalid⟩))
    exact List.mem_finRange c

end GoldLossFn

/-- When two calls have valid chunks, and there is something to compare, the losses do not add
up for some logits. -/
theorem Split.exists_sum_goldRun_ne [IsStrictOrderedRing K] {R M B : ℕ} (split : Split R M B)
    (rows : Fin B → GoldRow K Vs Vt pad S Tt C)
    (hmap : map.common ≠ [] ∨ 0 < fn.maxUncommon map)
    (h : ¬split.AtMostOneStep fun i => (rows i).align) :
    ∃ batch : Fin B → GoldRow K Vs Vt pad S Tt C,
      (∀ i, batch i = (rows i).withLogits (batch i).studentLogits (batch i).teacherFullLogits) ∧
        ((fn.goldRun id (fun _ => 0) map fun r k => (split.part r k).map batch).map
          GoldLoss.loss).sum ≠
            ((fn.goldStep id (fun _ => 0) map [(List.finRange B).map batch]).map
              GoldLoss.loss).sum := by
  simp only [AtMostOneStep, not_forall] at h
  obtain ⟨k, k', hk, hk', hne⟩ := h
  obtain ⟨r, i, hi, c, hc⟩ := id hk
  -- only the sample with this valid chunk has logits
  let batch := fun j => if j = i then fn.probeTarget (rows j) else fn.probe (rows j) 0 0
  have hlogits : ∀ j, batch j =
      (rows j).withLogits (batch j).studentLogits (batch j).teacherFullLogits := by
    intro j
    simp only [batch, GoldLossFn.probeTarget]
    split <;> [split; skip] <;> rfl
  have halign : (fun j => (batch j).align) = fun j => (rows j).align := by
    ext1 j
    rw [hlogits j]
    rfl
  have hzero : ∀ j, j ≠ i → fn.rowLoss id (fun _ => 0) map (batch j) = 0 := by
    intro j hj
    simp only [batch, if_neg hj]
    exact GoldLossFn.rowLoss_probe_zero fn map (rows j)
  have hpos : 0 < fn.rowLoss id (fun _ => 0) map (batch i) := by
    simp only [batch, if_true]
    exact GoldLossFn.rowLoss_probeTarget_pos fn map (rows i) c hmap hc
  have htotal : ∀ k, split.stepTotal fn id (fun _ => 0) map batch k =
      split.occurrences i k * fn.rowLoss id (fun _ => 0) map (batch i) :=
    fun k => split.sum_single hzero k
  refine ⟨batch, hlogits, ?_⟩
  rw [sum_goldRun_split, sum_goldStep_whole split, halign]
  intro heq
  refine sum_countedMean_ne (i := k) (j := k') ?_ ?_ ((split.stepCount_ne_zero _ k).mpr hk)
    (Ne.symm hne) ((split.stepCount_ne_zero _ k').mpr hk')
    (mul_right_cancel₀ (mul_ne_zero fn.temperature_ne fn.temperature_ne) heq)
  · intro k'' hk''
    rw [htotal, split.occurrences_eq_zero hi hk'', Nat.cast_zero, zero_mul]
  · rw [htotal]
    exact mul_ne_zero (Nat.cast_ne_zero.mpr (split.occurrences_pos hi).ne') hpos.ne'

end Probe

/-! ## Cross entropies -/

omit [LinearOrder K] in
theorem length_ceLabelMask (exp log : K → K) (row : GoldRow K Vs Vt pad S Tt C) :
    (studentNextTokenCe exp log row).length =
      (ceLabelMask row (studentNextTokenCe exp log row).length).length := by
  simp [ceLabelMask, studentNextTokenCe]

omit [LinearOrder K] in
/-- The cross entropies of the parts add up to that of all rows. -/
theorem Split.sum_computeCe {R M B : ℕ} (split : Split R M B) (exp log : K → K)
    (globalValidToks : K) (rows : Fin B → GoldRow K Vs Vt pad S Tt C) :
    ∑ k, ∑ r, computeCe exp log globalValidToks ((split.part r k).map rows) =
      computeCe exp log globalValidToks ((List.finRange B).map rows) := by
  simp only [computeCe, maskedMean_flatMap _ _ _ globalValidToks (length_ceLabelMask exp log),
    List.map_map, split.sum_part]

/-! ## Independence of the split -/

/-- The gold losses of microbatches on ranks add up to the loss of all rows, for all logits,
exactly when all valid chunks are in one call or there are no tokens to compare. The cross
entropies add up for every split. -/
theorem goldSplit_iff [IsStrictOrderedRing K] {R M B : ℕ} (split : Split R M B)
    (fn : GoldLossFn K) (map : ExactTokenMap Vs Vt) (rows : Fin B → GoldRow K Vs Vt pad S Tt C) :
    ((∀ (exp log : K → K) (studentLogits : Fin B → Fin S → Fin Vs → K)
        (teacherFullLogits : Fin B → Fin Tt → Fin (Vt + pad) → K),
      ((fn.goldRun exp log map fun r k => (split.part r k).map fun i =>
          (rows i).withLogits (studentLogits i) (teacherFullLogits i)).map GoldLoss.loss).sum =
        ((fn.goldStep exp log map [(List.finRange B).map fun i =>
          (rows i).withLogits (studentLogits i) (teacherFullLogits i)]).map GoldLoss.loss).sum) ↔
      split.AtMostOneStep (fun i => (rows i).align) ∨
        map.common = [] ∧ fn.maxUncommon map ≤ 0) ∧
    ∀ (exp log : K → K) (globalValidToks : K),
      ∑ k, ∑ r, computeCe exp log globalValidToks ((split.part r k).map rows) =
        computeCe exp log globalValidToks ((List.finRange B).map rows) := by
  refine ⟨⟨fun hsum => ?_, fun hcond exp log studentLogits teacherFullLogits => ?_⟩,
    fun exp log globalValidToks => split.sum_computeCe exp log globalValidToks rows⟩
  · by_contra hcond
    rw [not_or, not_and_or, not_le] at hcond
    obtain ⟨batch, hlogits, hne⟩ := split.exists_sum_goldRun_ne fn map rows hcond.2 hcond.1
    have heq := hsum id (fun _ => 0) (fun i => (batch i).studentLogits)
      fun i => (batch i).teacherFullLogits
    simp only [← hlogits] at heq
    exact hne heq
  · cases hcond with
    | inl hstep =>
      exact split.sum_goldRun_of_atMostOneStep fn exp log map
        (fun i => (rows i).withLogits (studentLogits i) (teacherFullLogits i)) hstep
    | inr hnil =>
      exact sum_goldRun_of_nil split fn exp log map
        (fun i => (rows i).withLogits (studentLogits i) (teacherFullLogits i)) hnil.1 hnil.2

/-- A sample with one chunk of one position on both sides, with vocabularies of two tokens. The
teacher prefers the first of them. -/
def oneChunkRow (K : Type) [Field K] (sampleMask : K) : GoldRow K 2 2 0 1 1 1 where
  studentLogits _ _ := 0
  teacherFullLogits _ v := if v = 0 then 1 else 0
  align := { sampleMask := sampleMask, studentChunkId := fun _ => 0, teacherChunkId := fun _ => 0,
             pairValid := fun _ => true }
  inputIds _ := 0
  tokenMask _ := 1

/-- The first tokens are common and the second ones are not. -/
def firstCommon : ExactTokenMap 2 2 where
  common := [(0, 0)]
  uncommonStudent := [1]
  uncommonTeacher := [1]

/-- Forward divergence at temperature one. -/
def forwardGold (K : Type) [Field K] : GoldLossFn K where
  temperature := 1
  uncommonTopk := 8192
  reverseKl := false
  temperature_ne := one_ne_zero

/-- Two samples in two calls on one rank. -/
def bySample : Split 1 2 2 where
  part _ k := [k]
  perm := by decide

/-- When one of two samples is masked, their losses add up. -/
theorem bySample_masked :
    (((forwardGold ℚ).goldRun (1 + ·) (· - 1) firstCommon fun r k =>
        (bySample.part r k).map fun i => oneChunkRow ℚ (i : ℕ)).map GoldLoss.loss).sum =
      (((forwardGold ℚ).goldStep (1 + ·) (· - 1) firstCommon
        [(List.finRange 2).map fun i => oneChunkRow ℚ (i : ℕ)]).map GoldLoss.loss).sum :=
  (goldSplit_iff bySample (forwardGold ℚ) firstCommon fun i => oneChunkRow ℚ (i : ℕ)).1.mpr
    (.inl (by decide +kernel)) _ _ (fun i => (oneChunkRow ℚ (i : ℕ)).studentLogits)
    fun i => (oneChunkRow ℚ (i : ℕ)).teacherFullLogits

theorem numValid_oneChunkRow : (oneChunkRow ℝ 1).align.numValid = 1 := by
  simp [LocalizedAlignment.numValid, LocalizedAlignment.validChunk, oneChunkRow, validChunkMask,
    chunkSizes, List.finRange_succ]

/-- The real loss of the sample is positive. -/
theorem rowLoss_oneChunkRow :
    0 < (forwardGold ℝ).rowLoss Real.exp Real.log firstCommon (oneChunkRow ℝ 1) := by
  have hstudent : (forwardGold ℝ).studentChunks Real.exp Real.log (oneChunkRow ℝ 1) 0 0 =
      -Real.log 2 / (1 + 1 / 10 ^ 10) := by
    simp [GoldLossFn.studentChunks, chunkAverageLogProbs, chunkLogProbSums, chunkAverageFinalize,
      chunkSizes, logSoftmax, oneChunkRow]
    norm_num
  have hteacher : (forwardGold ℝ).teacherChunks Real.exp Real.log (oneChunkRow ℝ 1) 0 0 =
      (1 - Real.log (Real.exp 1 + 1)) / (1 + 1 / 10 ^ 10) := by
    simp [GoldLossFn.teacherChunks, chunkAverageLogProbs, chunkLogProbSums, chunkAverageFinalize,
      chunkSizes, logSoftmax, oneChunkRow, forwardGold]
    norm_num
  have hlog : -Real.log 2 < 1 - Real.log (Real.exp 1 + 1) := by
    have hexp : Real.exp 1 + 1 < 2 * Real.exp 1 := by linarith [Real.add_one_lt_exp one_ne_zero]
    have hlt := Real.log_lt_log (by positivity) hexp
    rw [Real.log_mul two_ne_zero (Real.exp_ne_zero 1), Real.log_exp] at hlt
    linarith
  have hkl : 0 < (forwardGold ℝ).klPerChunk Real.exp Real.log firstCommon (oneChunkRow ℝ 1) 0 := by
    have hlt := div_lt_div_of_pos_right hlog (show (0 : ℝ) < 1 + 1 / 10 ^ 10 by norm_num)
    rw [← hstudent, ← hteacher, ← sub_pos] at hlt
    simpa [GoldLossFn.klPerChunk, firstCommon, forwardGold, klDiv] using
      mul_pos (Real.exp_pos _) hlt
  have hl1 := (forwardGold ℝ).l1PerChunk_nonneg Real.exp Real.log firstCommon (oneChunkRow ℝ 1) 0
  have hrow : (forwardGold ℝ).rowLoss Real.exp Real.log firstCommon (oneChunkRow ℝ 1) =
      (forwardGold ℝ).chunkLoss Real.exp Real.log firstCommon (oneChunkRow ℝ 1) 0 := by
    simp [GoldLossFn.rowLoss, List.finRange_succ, LocalizedAlignment.validChunk, oneChunkRow,
      validChunkMask, chunkSizes]
  rw [hrow]
  exact add_pos_of_pos_of_nonneg hkl hl1

/-- The real losses of two samples in two calls do not add up. -/
theorem bySample_ne :
    (((forwardGold ℝ).goldRun Real.exp Real.log firstCommon fun r k =>
        (bySample.part r k).map fun _ => oneChunkRow ℝ 1).map GoldLoss.loss).sum ≠
      (((forwardGold ℝ).goldStep Real.exp Real.log firstCommon
        [(List.finRange 2).map fun _ => oneChunkRow ℝ 1]).map GoldLoss.loss).sum := by
  rw [sum_goldRun_split, sum_goldStep_whole bySample]
  have hcount : ∀ k, bySample.stepCount (fun _ : Fin 2 => (oneChunkRow ℝ 1).align) k = 1 := by
    intro k
    simp [Split.stepCount, bySample, numValid_oneChunkRow]
  have htotal : ∀ k, bySample.stepTotal (forwardGold ℝ) Real.exp Real.log firstCommon
      (fun _ => oneChunkRow ℝ 1) k =
        (forwardGold ℝ).rowLoss Real.exp Real.log firstCommon (oneChunkRow ℝ 1) := by
    intro k
    simp [Split.stepTotal, bySample]
  have hpos := rowLoss_oneChunkRow
  have htemperature : (forwardGold ℝ).temperature = 1 := rfl
  simp only [hcount, htotal, htemperature, Finset.sum_const, Finset.card_univ, Fintype.card_fin,
    countedMean]
  norm_num
  linarith

end NemoRL.Loss
