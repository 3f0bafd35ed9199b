import NemoRL.Lib.Select
import NemoRL.Lib.Variance
import Mathlib.Data.List.Dedup

/-!
# Baselines and standard deviations of prompt groups

The rows of one prompt form a group. A row is compared with the rewards of its group, or, with
a baseline that leaves one out, with the rewards of the others in its group. The rewards are
numbers of a field. The square root is a parameter, with the value zero for what has no root.

## Main definitions

* `calculateBaselineAndStdPerPrompt` — the baseline and the standard deviation of each row.

## Main results

* `select_std` — the deviations of a group of valid rows.
* `std_eq_zero_iff` — a deviation is zero just when the rewards that the row is compared with
  are equal.
-/

namespace NemoRL.Algorithms

open Lib

variable {P K : Type}

/-- The rows of a prompt. -/
def promptIdx [DecidableEq P] (prompts : List P) (prompt : P) : List ℕ :=
  indicesWhere (fun p => decide (p = prompt)) prompts

/-- Write values at positions. -/
def setAt (xs : List K) (idx : List ℕ) (values : List K) : List K :=
  (idx.zip values).foldl (fun xs p => xs.set p.1 p.2) xs

section Field
variable [Field K]

/-- The sums of a group for each of its rows, of all values or of those of the others. -/
def maskedSums (leaveOneOutBaseline : Bool) (values : List K) : List K :=
  (List.range values.length).map fun i =>
    (values.zipIdx.map fun p =>
      (if leaveOneOutBaseline ∧ p.2 = i then 0 else 1) * p.1).sum

/-- The number of rewards that a row of a group is compared with. -/
def numCompared (leaveOneOutBaseline : Bool) (validMask : List K) : K :=
  validMask.sum - if leaveOneOutBaseline then 1 else 0

/-- The baselines of the rows of a group. -/
def promptBaseline (leaveOneOutBaseline : Bool) (rewards validMask : List K) : List K :=
  (maskedSums leaveOneOutBaseline (List.zipWith (· * ·) rewards validMask)).map
    (· / numCompared leaveOneOutBaseline validMask)

/-- The standard deviations for the rows of a group. -/
def promptStd (sqrt : K → K) (leaveOneOutBaseline : Bool) (stdRewards validMask : List K) :
    List K :=
  let numValid := numCompared leaveOneOutBaseline validMask
  let stdPromptBaseline := promptBaseline leaveOneOutBaseline stdRewards validMask
  let stdPromptBaselineSquare :=
    promptBaseline leaveOneOutBaseline (stdRewards.map (· ^ 2)) validMask
  List.zipWith
    (fun square mean => sqrt ((square - mean ^ 2) * (numValid / (numValid - 1))))
    stdPromptBaselineSquare stdPromptBaseline

variable [LinearOrder K] [DecidableEq P]

/-- Write the baselines and deviations of the group of a prompt. A group with one valid row
has its rewards for baselines, and keeps its deviations. -/
def baselineStep (sqrt : K → K) (prompts : List P) (rewards validMask : List K)
    (leaveOneOutBaseline : Bool) (stdRewards : List K) (acc : List K × List K) (prompt : P) :
    List K × List K :=
  let idx := promptIdx prompts prompt
  if (select validMask idx).sum ≤ 1 then (setAt acc.1 idx (select rewards idx), acc.2)
  else
    (setAt acc.1 idx
      (promptBaseline leaveOneOutBaseline (select rewards idx) (select validMask idx)),
    setAt acc.2 idx
      (promptStd sqrt leaveOneOutBaseline (select stdRewards idx) (select validMask idx)))

/-- The baseline and the standard deviation of each row. The deviations may be those of other
rewards. -/
def calculateBaselineAndStdPerPrompt (sqrt : K → K) (prompts : List P)
    (rewards validMask : List K) (leaveOneOutBaseline : Bool) (stdRewards : Option (List K)) :
    List K × List K :=
  prompts.dedup.foldl
    (baselineStep sqrt prompts rewards validMask leaveOneOutBaseline (stdRewards.getD rewards))
    (List.replicate rewards.length 0, List.replicate rewards.length 0)

end Field

/-! ## Positions of a group -/

@[simp] theorem length_setAt (xs : List K) (idx : List ℕ) (values : List K) :
    (setAt xs idx values).length = xs.length := by
  unfold setAt
  induction idx.zip values generalizing xs with
  | nil => rfl
  | cons p ps ih => rw [List.foldl_cons, ih, List.length_set]

theorem getElem?_setAt_of_notMem {xs : List K} {idx : List ℕ} {values : List K} {j : ℕ}
    (h : j ∉ idx) : (setAt xs idx values)[j]? = xs[j]? := by
  induction idx generalizing xs values with
  | nil => rfl
  | cons i is ih =>
    rw [List.mem_cons, not_or] at h
    cases values with
    | nil => rfl
    | cons v vs =>
      change (setAt (xs.set i v) is vs)[j]? = xs[j]?
      rw [ih h.2, List.getElem?_set_ne (Ne.symm h.1)]

/-- Other positions keep their values. -/
theorem select_setAt_of_disjoint {xs : List K} {idx idx' : List ℕ} {values : List K}
    (h : ∀ j ∈ idx', j ∉ idx) : select (setAt xs idx values) idx' = select xs idx' := by
  unfold select
  apply List.filterMap_congr
  intro j hj
  exact getElem?_setAt_of_notMem (h j hj)

/-- The positions have the values that were written. -/
theorem select_setAt {xs : List K} {idx : List ℕ} {values : List K} (hnodup : idx.Nodup)
    (hlt : ∀ i ∈ idx, i < xs.length) (hlength : values.length = idx.length) :
    select (setAt xs idx values) idx = values := by
  induction idx generalizing xs values with
  | nil => exact (List.length_eq_zero_iff.mp hlength).symm
  | cons i is ih =>
    obtain ⟨hi, hnodup⟩ := List.nodup_cons.mp hnodup
    obtain ⟨hilt, hlt⟩ := List.forall_mem_cons.mp hlt
    cases values with
    | nil => simp at hlength
    | cons v vs =>
      have hrest : select (setAt (xs.set i v) is vs) is = vs :=
        ih hnodup (fun j hj => by simpa using hlt j hj) (by simpa using hlength)
      have hfirst : (setAt (xs.set i v) is vs)[i]? = some v := by
        rw [getElem?_setAt_of_notMem hi, List.getElem?_set_self hilt]
      change select (setAt (xs.set i v) is vs) (i :: is) = v :: vs
      rw [select_cons, hrest, hfirst]
      rfl

theorem select_replicate {n : ℕ} {c : K} {idx : List ℕ} (h : ∀ i ∈ idx, i < n) :
    select (List.replicate n c) idx = List.replicate idx.length c := by
  apply List.eq_replicate_iff.mpr
  refine ⟨length_select (by simpa using h), fun x hx => ?_⟩
  obtain ⟨i, -, hi⟩ := List.mem_filterMap.mp hx
  exact List.eq_of_mem_replicate (List.mem_of_getElem? hi)

section Prompts
variable [DecidableEq P]

theorem promptIdx_nodup (prompts : List P) (prompt : P) : (promptIdx prompts prompt).Nodup :=
  nodup_indicesWhere _ _

theorem mem_promptIdx {prompts : List P} {prompt : P} {i : ℕ} :
    i ∈ promptIdx prompts prompt ↔ prompts[i]? = some prompt := by
  simp only [promptIdx, indicesWhere, List.mem_map, List.mem_filter, decide_eq_true_eq]
  constructor
  · rintro ⟨⟨p, j⟩, ⟨hmem, rfl⟩, rfl⟩
    exact List.mem_zipIdx_iff_getElem?.mp hmem
  · intro h
    exact ⟨(prompt, i), ⟨List.mem_zipIdx_iff_getElem?.mpr h, rfl⟩, rfl⟩

theorem lt_of_mem_promptIdx {prompts : List P} {prompt : P} {i : ℕ}
    (h : i ∈ promptIdx prompts prompt) : i < prompts.length :=
  (List.getElem?_eq_some_iff.mp (mem_promptIdx.mp h)).1

theorem promptIdx_disjoint {prompts : List P} {p q : P} (h : p ≠ q) :
    ∀ i ∈ promptIdx prompts p, i ∉ promptIdx prompts q := by
  intro i hp hq
  apply h
  exact Option.some.inj ((mem_promptIdx.mp hp).symm.trans (mem_promptIdx.mp hq))

theorem length_promptIdx (prompts : List P) (prompt : P) :
    (promptIdx prompts prompt).length = prompts.count prompt := by
  rw [promptIdx, length_indicesWhere, List.count_eq_length_filter]
  rfl

end Prompts

/-! ## The rewards that a row is compared with -/

/-- The values that a row of a group is compared with. -/
def compared (leaveOneOutBaseline : Bool) (values : List K) (i : ℕ) : List K :=
  if leaveOneOutBaseline then values.eraseIdx i else values

theorem compared_map (leaveOneOutBaseline : Bool) (f : K → K) (values : List K) (i : ℕ) :
    compared leaveOneOutBaseline (values.map f) i =
      (compared leaveOneOutBaseline values i).map f := by
  unfold compared
  split_ifs
  · rw [List.eraseIdx_map]
  · rfl

section Stats
variable [Field K]

/-- The sum over the others, by their positions. -/
theorem sum_erased (values : List K) (i k : ℕ) (h : k ≤ i) :
    ((values.zipIdx k).map fun p => (if p.2 = i then 0 else 1) * p.1).sum =
      (values.eraseIdx (i - k)).sum := by
  induction values generalizing k with
  | nil => simp
  | cons v values ih =>
    rw [List.zipIdx_cons, List.map_cons, List.sum_cons]
    by_cases hki : k = i
    · subst hki
      have hrest : ((values.zipIdx (k + 1)).map fun p => (if p.2 = k then 0 else 1) * p.1) =
          (values.zipIdx (k + 1)).map Prod.fst := by
        apply List.map_congr_left
        intro p hp
        have hle := List.le_snd_of_mem_zipIdx hp
        rw [if_neg (by omega), one_mul]
      rw [hrest, List.zipIdx_map_fst, if_pos rfl, zero_mul, zero_add, Nat.sub_self,
        List.eraseIdx_cons_zero]
    · have hsub : i - k = i - (k + 1) + 1 := by omega
      rw [ih (k + 1) (by omega), if_neg hki, one_mul, hsub, List.eraseIdx_cons_succ,
        List.sum_cons]

theorem maskedSums_eq (leaveOneOutBaseline : Bool) (values : List K) :
    maskedSums leaveOneOutBaseline values =
      (List.range values.length).map fun i => (compared leaveOneOutBaseline values i).sum := by
  unfold maskedSums compared
  cases leaveOneOutBaseline with
  | true =>
    apply List.map_congr_left
    intro i _
    simpa using sum_erased values i 0 (Nat.zero_le i)
  | false => simp [List.zipIdx_map_fst]

/-- The rows of a group of valid rows are compared with one number of rewards. -/
theorem numCompared_replicate {leaveOneOutBaseline : Bool} {values : List K} {i : ℕ}
    (hi : i < values.length) :
    numCompared leaveOneOutBaseline (List.replicate values.length (1 : K)) =
      (compared leaveOneOutBaseline values i).length := by
  unfold numCompared compared
  rw [List.sum_replicate, nsmul_eq_mul, mul_one]
  cases leaveOneOutBaseline with
  | true =>
    have hlength := List.length_eraseIdx_add_one hi
    simp only [if_true]
    rw [← hlength, Nat.cast_add, Nat.cast_one, add_sub_cancel_right]
  | false => simp

/-- The deviations of the rewards that the rows of a group are compared with. -/
def groupStd (sqrt : K → K) (leaveOneOutBaseline : Bool) (values : List K) : List K :=
  (List.range values.length).map fun i =>
    sqrt (sampleVariance (compared leaveOneOutBaseline values i))

@[simp] theorem length_groupStd (sqrt : K → K) (leaveOneOutBaseline : Bool) (values : List K) :
    (groupStd sqrt leaveOneOutBaseline values).length = values.length := by
  simp [groupStd]

/-- The deviations of a group of valid rows. -/
theorem promptStd_replicate (sqrt : K → K) (leaveOneOutBaseline : Bool) (values : List K) :
    promptStd sqrt leaveOneOutBaseline values (List.replicate values.length 1) =
      groupStd sqrt leaveOneOutBaseline values := by
  have hones : ∀ xs : List K, xs.length = values.length →
      List.zipWith (· * ·) xs (List.replicate values.length 1) = xs := by
    intro xs hxs
    rw [← hxs]
    clear hxs
    induction xs with
    | nil => rfl
    | cons x xs ih => simp [List.replicate_succ, ih]
  unfold promptStd promptBaseline groupStd
  dsimp only
  rw [hones values rfl, hones (values.map (· ^ 2)) (List.length_map _), maskedSums_eq,
    maskedSums_eq, List.length_map, List.map_map, List.map_map, List.zipWith_map, List.zipWith_self]
  apply List.map_congr_left
  intro i hi
  rw [List.mem_range] at hi
  simp only [Function.comp_apply, numCompared_replicate hi, compared_map, sampleVariance]

variable [LinearOrder K] [DecidableEq P]

theorem baselineStep_other (sqrt : K → K) (prompts : List P) (rewards validMask : List K)
    (leaveOneOutBaseline : Bool) (stdRewards : List K) (acc : List K × List K) {p q : P}
    (h : p ≠ q) :
    let next := baselineStep sqrt prompts rewards validMask leaveOneOutBaseline stdRewards acc q
    select next.1 (promptIdx prompts p) = select acc.1 (promptIdx prompts p) ∧
      select next.2 (promptIdx prompts p) = select acc.2 (promptIdx prompts p) := by
  have hother : ∀ i ∈ promptIdx prompts p, i ∉ promptIdx prompts q := promptIdx_disjoint h
  unfold baselineStep
  dsimp only
  split_ifs
  · exact ⟨select_setAt_of_disjoint hother, rfl⟩
  · exact ⟨select_setAt_of_disjoint hother, select_setAt_of_disjoint hother⟩

theorem length_baselineStep (sqrt : K → K) (prompts : List P) (rewards validMask : List K)
    (leaveOneOutBaseline : Bool) (stdRewards : List K) (acc : List K × List K) (q : P) :
    let next := baselineStep sqrt prompts rewards validMask leaveOneOutBaseline stdRewards acc q
    next.1.length = acc.1.length ∧ next.2.length = acc.2.length := by
  unfold baselineStep
  dsimp only
  split_ifs
  · exact ⟨length_setAt .., rfl⟩
  · exact ⟨length_setAt .., length_setAt ..⟩

/-- There is a baseline and a deviation for each row. -/
theorem length_calculateBaselineAndStdPerPrompt (sqrt : K → K) (prompts : List P)
    (rewards validMask : List K) (leaveOneOutBaseline : Bool) (stdRewards : Option (List K)) :
    let result := calculateBaselineAndStdPerPrompt sqrt prompts rewards validMask
      leaveOneOutBaseline stdRewards
    result.1.length = rewards.length ∧ result.2.length = rewards.length := by
  have hloop : ∀ (ps : List P) (acc : List K × List K),
      let result := ps.foldl (baselineStep sqrt prompts rewards validMask leaveOneOutBaseline
        (stdRewards.getD rewards)) acc
      result.1.length = acc.1.length ∧ result.2.length = acc.2.length := by
    intro ps
    induction ps with
    | nil => exact fun acc => ⟨rfl, rfl⟩
    | cons q ps ih =>
      intro acc
      obtain ⟨hfst, hsnd⟩ := length_baselineStep sqrt prompts rewards validMask
        leaveOneOutBaseline (stdRewards.getD rewards) acc q
      exact ⟨(ih _).1.trans hfst, (ih _).2.trans hsnd⟩
  have hzeros := hloop prompts.dedup
    (List.replicate rewards.length 0, List.replicate rewards.length 0)
  simpa [calculateBaselineAndStdPerPrompt] using hzeros

omit [LinearOrder K] [DecidableEq P] in
theorem length_promptBaseline {leaveOneOutBaseline : Bool} {values validMask : List K}
    (h : values.length = validMask.length) :
    (promptBaseline leaveOneOutBaseline values validMask).length = values.length := by
  simp [promptBaseline, maskedSums, h]

omit [LinearOrder K] [DecidableEq P] in
theorem length_promptStd {sqrt : K → K} {leaveOneOutBaseline : Bool}
    {values validMask : List K} (h : values.length = validMask.length) :
    (promptStd sqrt leaveOneOutBaseline values validMask).length = values.length := by
  have hsquares : (values.map (· ^ 2)).length = validMask.length := by rwa [List.length_map]
  rw [promptStd, List.length_zipWith, length_promptBaseline hsquares, length_promptBaseline h,
    List.length_map, Nat.min_self]

/-- The baselines and deviations of a group with more than one valid row are those that are
computed for it. -/
theorem select_group (sqrt : K → K) {prompts : List P} {rewards validMask : List K}
    (leaveOneOutBaseline : Bool) {stdRewards : Option (List K)} {p : P}
    (hlength : rewards.length = prompts.length) (hmask : validMask.length = prompts.length)
    (hstd : (stdRewards.getD rewards).length = prompts.length) (hp : p ∈ prompts)
    (hvalid : ¬(select validMask (promptIdx prompts p)).sum ≤ 1) :
    let result := calculateBaselineAndStdPerPrompt sqrt prompts rewards validMask
      leaveOneOutBaseline stdRewards
    let idx := promptIdx prompts p
    select result.1 idx =
        promptBaseline leaveOneOutBaseline (select rewards idx) (select validMask idx) ∧
      select result.2 idx = promptStd sqrt leaveOneOutBaseline
        (select (stdRewards.getD rewards) idx) (select validMask idx) := by
  intro result idx
  have hlt : ∀ i ∈ idx, i < prompts.length := fun i hi => lt_of_mem_promptIdx hi
  have hselect : ∀ xs : List K, xs.length = prompts.length →
      (select xs idx).length = idx.length :=
    fun xs hxs => length_select fun i hi => hxs ▸ hlt i hi
  -- the group is written when its prompt comes, and the other prompts leave it as it is
  have hloop : ∀ (ps : List P) (acc : List K × List K), ps.Nodup →
      acc.1.length = rewards.length → acc.2.length = rewards.length →
      (p ∉ ps → select acc.1 idx = promptBaseline leaveOneOutBaseline (select rewards idx)
          (select validMask idx) ∧
        select acc.2 idx = promptStd sqrt leaveOneOutBaseline
          (select (stdRewards.getD rewards) idx) (select validMask idx)) →
      let last := ps.foldl (baselineStep sqrt prompts rewards validMask leaveOneOutBaseline
        (stdRewards.getD rewards)) acc
      select last.1 idx = promptBaseline leaveOneOutBaseline (select rewards idx)
          (select validMask idx) ∧
        select last.2 idx = promptStd sqrt leaveOneOutBaseline
          (select (stdRewards.getD rewards) idx) (select validMask idx) := by
    intro ps
    induction ps with
    | nil => exact fun acc _ _ _ h => h List.not_mem_nil
    | cons q ps ih =>
      intro acc hnodup hacc hacc' h
      obtain ⟨hq, hnodup⟩ := List.nodup_cons.mp hnodup
      obtain ⟨hfst, hsnd⟩ := length_baselineStep sqrt prompts rewards validMask
        leaveOneOutBaseline (stdRewards.getD rewards) acc q
      refine ih _ hnodup (hfst.trans hacc) (hsnd.trans hacc') fun hp => ?_
      by_cases hpq : p = q
      · subst hpq
        unfold baselineStep
        dsimp only
        rw [if_neg hvalid]
        have hnd : idx.Nodup := promptIdx_nodup ..
        refine ⟨select_setAt hnd ?_ ?_, select_setAt hnd ?_ ?_⟩
        · rw [hacc, hlength]
          exact hlt
        · rw [length_promptBaseline ((hselect _ hlength).trans (hselect _ hmask).symm),
            hselect _ hlength]
        · rw [hacc', hlength]
          exact hlt
        · rw [length_promptStd ((hselect _ hstd).trans (hselect _ hmask).symm), hselect _ hstd]
      · obtain ⟨hfst, hsnd⟩ := baselineStep_other sqrt prompts rewards validMask
          leaveOneOutBaseline (stdRewards.getD rewards) acc hpq
        rw [hfst, hsnd]
        exact h (by simp [hpq, hp])
  refine hloop _ _ prompts.nodup_dedup (List.length_replicate ..) (List.length_replicate ..)
    fun hnot => ?_
  exact absurd (List.mem_dedup.mpr hp) hnot

variable [IsStrictOrderedRing K]

/-- The deviations of a group of at least two valid rows. -/
theorem select_std {sqrt : K → K} {prompts : List P} {rewards : List K}
    {leaveOneOutBaseline : Bool} {stdRewards : Option (List K)} {p : P}
    (hlength : rewards.length = prompts.length)
    (hstd : (stdRewards.getD rewards).length = prompts.length)
    (hcount : 2 ≤ prompts.count p) :
    select (calculateBaselineAndStdPerPrompt sqrt prompts rewards
        (List.replicate rewards.length 1) leaveOneOutBaseline stdRewards).2 (promptIdx prompts p) =
      groupStd sqrt leaveOneOutBaseline
        (select (stdRewards.getD rewards) (promptIdx prompts p)) := by
  have hlt : ∀ i ∈ promptIdx prompts p, i < rewards.length := fun i hi =>
    hlength ▸ lt_of_mem_promptIdx hi
  have hgroup : (select (stdRewards.getD rewards) (promptIdx prompts p)).length =
      prompts.count p := by
    rw [length_select fun i hi => hstd ▸ lt_of_mem_promptIdx hi, length_promptIdx]
  have hvalid : select (List.replicate rewards.length (1 : K)) (promptIdx prompts p) =
      List.replicate (prompts.count p) 1 := by
    rw [select_replicate hlt, length_promptIdx]
  have htwo : ¬(select (List.replicate rewards.length (1 : K)) (promptIdx prompts p)).sum ≤ 1 := by
    rw [hvalid, List.sum_replicate, nsmul_eq_mul, mul_one, not_le]
    exact_mod_cast hcount
  have hp : p ∈ prompts := List.count_pos_iff.mp (by omega)
  have hmask : (List.replicate rewards.length (1 : K)).length = prompts.length := by
    rw [List.length_replicate, hlength]
  rw [(select_group sqrt leaveOneOutBaseline hlength hmask hstd hp htwo).2, hvalid, ← hgroup,
    promptStd_replicate]

/-- A deviation is zero just when the rewards that the row is compared with are equal. -/
theorem std_eq_zero_iff {sqrt : K → K} (hsqrt : ∀ x, sqrt x = 0 ↔ x ≤ 0)
    {leaveOneOutBaseline : Bool} {values : List K} {i : ℕ} (hi : i < values.length)
    (htwo : 2 ≤ values.length) :
    sqrt (sampleVariance (compared leaveOneOutBaseline values i)) = 0 ↔
      AllEqual (compared leaveOneOutBaseline values i) := by
  rw [hsqrt, sampleVariance_nonpos_iff]
  intro hnil
  have hlength := congrArg List.length hnil
  unfold compared at hlength
  split_ifs at hlength
  · rw [List.length_eraseIdx_of_lt hi, List.length_nil] at hlength
    omega
  · rw [List.length_nil] at hlength
    omega

end Stats

end NemoRL.Algorithms
