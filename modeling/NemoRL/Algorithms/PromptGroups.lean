import NemoRL.Algorithms.DynamicSamplingSpec
import NemoRL.Lib.Except

/-!
# Prompt groups under dynamic sampling

Dynamic sampling is meant to keep the groups with different rewards, and those only. A row is
kept when the rewards that it is compared with differ. With a baseline that leaves one out these
are the rewards of the others, so that a group is kept in part when only one reward differs from
the others, and dropped when it has two rows.

## Main definitions

* `KeepsWholeGroups` — the groups of a batch with different rewards are kept, the others not.
* `DifferWithoutOne` — the condition on the rewards of a group.
* `CompleteGroups` — some rows are complete groups.

## Main results

* `keepsWholeGroup_iff` — a group is kept whole just when its rows are compared with different
  rewards.
* `CollectedGroups.append`, `CollectedGroups.take` — complete groups are merged and cut.
-/

namespace NemoRL.Algorithms

open Lib

variable {P K ρ : Type}

/-! ## Groups -/

section Groups
variable [DecidableEq P]

/-- The rows of a prompt. -/
def groupRows (rows : List (SampleRow P K ρ)) (p : P) : List (SampleRow P K ρ) :=
  rows.filter fun row => row.promptIds = p

/-- The rewards of a prompt. -/
def groupRewards (rows : List (SampleRow P K ρ)) (p : P) : List K :=
  (groupRows rows p).map (·.totalReward)

/-- The rewards of a group, by the positions of its prompt. -/
theorem groupRewards_eq_select (rows : List (SampleRow P K ρ)) (p : P) :
    groupRewards rows p =
      select (rows.map (·.totalReward)) (promptIdx (rows.map (·.promptIds)) p) := by
  rw [promptIdx, indicesWhere_map, select_map, select_indicesWhere]
  rfl

/-- The deviations of a group, by the positions of its prompt. -/
theorem groupStds_eq_select (rows : List (SampleRow P K ρ)) (p : P) :
    (groupRows rows p).map (·.std) =
      select (rows.map (·.std)) (promptIdx (rows.map (·.promptIds)) p) := by
  rw [promptIdx, indicesWhere_map, select_map, select_indicesWhere]
  rfl

/-- The rewards of a prompt in a generated batch. -/
def promptRewards (rows : List (GeneratedRow P K ρ)) (p : P) : List K :=
  (rows.filter fun row => row.promptIds = p).map (·.totalReward)

theorem length_groupRows (rows : List (SampleRow P K ρ)) (p : P) :
    (groupRows rows p).length = (rows.map (·.promptIds)).count p := by
  rw [List.count_eq_length_filter, List.filter_map, List.length_map]
  rfl

end Groups

/-- The rewards of a group are equal, or without any one of them those of the others differ. -/
def DifferWithoutOne (rewards : List K) : Prop :=
  AllEqual rewards ∨ ∀ i < rewards.length, ¬ AllEqual (rewards.eraseIdx i)

section Field
variable [Field K] [LinearOrder K]

/-- All rows are kept when none has the deviation zero. -/
theorem keptRows_eq_iff (rows : List (SampleRow P K ρ)) :
    keptRows rows = rows.map SampleRow.keep ↔ ∀ row ∈ rows, row.std ≠ 0 := by
  constructor
  · intro h
    have hlength := congrArg List.length h
    rw [keptRows, List.length_map, List.length_map] at hlength
    simpa using List.length_filter_eq_length_iff.mp hlength
  · intro h
    rw [keptRows, List.filter_eq_self.mpr (by simpa using h)]

theorem keptRows_eq_nil_iff (rows : List (SampleRow P K ρ)) :
    keptRows rows = [] ↔ ∀ row ∈ rows, row.std = 0 := by
  simp [keptRows]

variable [DecidableEq P]

/-- A group with different rewards is kept, and nothing of a group with equal rewards. -/
def KeepsWholeGroup (rows : List (SampleRow P K ρ)) (p : P) : Prop :=
  ((keptRows rows).filter fun row => row.promptIds = p) =
    if AllEqual (groupRewards rows p) then [] else (groupRows rows p).map SampleRow.keep

/-- The groups with different rewards are kept, and nothing of the others. -/
def KeepsWholeGroups (rows : List (SampleRow P K ρ)) : Prop := ∀ p, KeepsWholeGroup rows p

theorem filter_keptRows (rows : List (SampleRow P K ρ)) (p : P) :
    ((keptRows rows).filter fun row => row.promptIds = p) = keptRows (groupRows rows p) := by
  unfold keptRows groupRows
  rw [List.filter_map, List.filter_filter, List.filter_filter]
  congr 1
  apply List.filter_congr
  intro row _
  exact Bool.and_comm _ _

/-! ## The deviations of a batch -/

section Batch
variable (sqrt : K → K) (leaveOneOutBaseline : Bool) (stdRewards : Option (List K))

/-- The rows of a batch stay, with new columns. -/
theorem withBaselineStd_columns (rows : List (GeneratedRow P K ρ)) :
    (withBaselineStd sqrt leaveOneOutBaseline stdRewards rows).map SampleRow.toGeneratedRow = rows ∧
      (withBaselineStd sqrt leaveOneOutBaseline stdRewards rows).map (·.std) =
        (calculateBaselineAndStdPerPrompt sqrt (rows.map (·.promptIds))
          (rows.map (·.totalReward)) (List.replicate rows.length 1) leaveOneOutBaseline
          stdRewards).2 := by
  obtain ⟨hbaseline, hstd⟩ := length_calculateBaselineAndStdPerPrompt sqrt
    (rows.map (·.promptIds)) (rows.map (·.totalReward)) (List.replicate rows.length 1)
    leaveOneOutBaseline stdRewards
  rw [List.length_map] at hbaseline hstd
  unfold withBaselineStd
  dsimp only
  constructor
  · apply List.ext_getElem
    · simp [hbaseline, hstd]
    · intro i h₁ h₂
      simp
  · apply List.ext_getElem
    · simp [hbaseline, hstd]
    · intro i h₁ h₂
      simp

theorem promptIds_withBaselineStd (rows : List (GeneratedRow P K ρ)) :
    (withBaselineStd sqrt leaveOneOutBaseline stdRewards rows).map (·.promptIds) =
      rows.map (·.promptIds) := by
  have hrows := (withBaselineStd_columns sqrt leaveOneOutBaseline stdRewards rows).1
  conv_rhs => rw [← hrows]
  rw [List.map_map]
  rfl

theorem totalReward_withBaselineStd (rows : List (GeneratedRow P K ρ)) :
    (withBaselineStd sqrt leaveOneOutBaseline stdRewards rows).map (·.totalReward) =
      rows.map (·.totalReward) := by
  have hrows := (withBaselineStd_columns sqrt leaveOneOutBaseline stdRewards rows).1
  conv_rhs => rw [← hrows]
  rw [List.map_map]
  rfl

theorem groupRewards_withBaselineStd (rows : List (GeneratedRow P K ρ)) (p : P) :
    groupRewards (withBaselineStd sqrt leaveOneOutBaseline stdRewards rows) p =
      promptRewards rows p := by
  have hrows := (withBaselineStd_columns sqrt leaveOneOutBaseline stdRewards rows).1
  rw [promptRewards]
  conv_rhs => rw [← hrows]
  rw [List.filter_map, List.map_map]
  rfl

theorem length_withBaselineStd (rows : List (GeneratedRow P K ρ)) :
    (withBaselineStd sqrt leaveOneOutBaseline stdRewards rows).length = rows.length := by
  have hlength := congrArg List.length
    (promptIds_withBaselineStd sqrt leaveOneOutBaseline stdRewards rows)
  simpa using hlength

/-- A generated batch with baselines and deviations. -/
def Rollout.withBaselineStd (rollout : Rollout (GeneratedRow P K ρ)) :
    Rollout (SampleRow P K ρ) where
  sampleIds := rollout.sampleIds
  sequenceLengths := rollout.sequenceLengths
  rows := Algorithms.withBaselineStd sqrt leaveOneOutBaseline none rollout.rows
  length_sampleIds := by
    rw [length_withBaselineStd]
    exact rollout.length_sampleIds

end Batch

section Ordered
variable [IsStrictOrderedRing K] {sqrt : K → K} {leaveOneOutBaseline : Bool}
  {rows : List (GeneratedRow P K ρ)} {p : P}

/-- The deviations of a group are those of its rewards. -/
theorem group_std (hcount : 2 ≤ (rows.map (·.promptIds)).count p) :
    (groupRows (withBaselineStd sqrt leaveOneOutBaseline none rows) p).map (·.std) =
      groupStd sqrt leaveOneOutBaseline
        (groupRewards (withBaselineStd sqrt leaveOneOutBaseline none rows) p) := by
  rw [groupStds_eq_select, groupRewards_eq_select, promptIds_withBaselineStd,
    totalReward_withBaselineStd, (withBaselineStd_columns sqrt leaveOneOutBaseline none rows).2]
  have hlength : rows.length = (rows.map (·.totalReward)).length := (List.length_map _).symm
  rw [hlength]
  exact select_std (by simp) (by simp) hcount

omit [DecidableEq P] in
/-- A group is kept whole or dropped just when each of its rows is compared with different
rewards, if the rewards differ at all. -/
theorem keptRows_group_iff (hsqrt : ∀ x, sqrt x = 0 ↔ x ≤ 0) {group : List (SampleRow P K ρ)}
    (hstd : group.map (·.std) = groupStd sqrt leaveOneOutBaseline (group.map (·.totalReward)))
    (htwo : 2 ≤ group.length) :
    (keptRows group = if AllEqual (group.map (·.totalReward)) then []
        else group.map SampleRow.keep) ↔
      (leaveOneOutBaseline = true → DifferWithoutOne (group.map (·.totalReward))) := by
  have hlength : (group.map (·.totalReward)).length = group.length := List.length_map _
  have hzero : ∀ i (hi : i < group.length), group[i].std = 0 ↔
      AllEqual (compared leaveOneOutBaseline (group.map (·.totalReward)) i) := by
    intro i hi
    have hget : (group.map (·.std))[i]? =
        (groupStd sqrt leaveOneOutBaseline (group.map (·.totalReward)))[i]? :=
      congrArg (fun l => l[i]?) hstd
    simp only [groupStd, List.getElem?_map, List.getElem?_eq_getElem hi, Option.map_some,
      List.getElem?_range (hlength ▸ hi), Option.some.injEq] at hget
    rw [hget]
    exact std_eq_zero_iff hsqrt (hlength ▸ hi) (hlength ▸ htwo)
  by_cases hequal : AllEqual (group.map (·.totalReward))
  · rw [if_pos hequal, keptRows_eq_nil_iff]
    refine ⟨fun _ _ => .inl hequal, fun _ row hrow => ?_⟩
    obtain ⟨i, hi, rfl⟩ := List.getElem_of_mem hrow
    refine (hzero i hi).mpr (hequal.of_subset ?_)
    unfold compared
    split_ifs
    · exact List.eraseIdx_subset
    · exact List.Subset.refl _
  · rw [if_neg hequal, keptRows_eq_iff]
    constructor
    · intro h hloo
      refine .inr fun i hi herased => ?_
      have hlt : i < group.length := by rwa [hlength] at hi
      refine h group[i] (List.getElem_mem hlt) ((hzero i hlt).mpr ?_)
      rwa [compared, if_pos hloo]
    · intro h row hrow
      obtain ⟨i, hi, rfl⟩ := List.getElem_of_mem hrow
      rw [ne_eq, hzero i hi, compared]
      split_ifs with hloo
      · exact (h hloo).resolve_left hequal i (hlength ▸ hi)
      · exact hequal

/-- A group of a batch is kept whole just when its rows are compared with different rewards. -/
theorem keepsWholeGroup_iff (hsqrt : ∀ x, sqrt x = 0 ↔ x ≤ 0)
    (hcount : p ∈ rows.map (·.promptIds) → 2 ≤ (rows.map (·.promptIds)).count p) :
    KeepsWholeGroup (withBaselineStd sqrt leaveOneOutBaseline none rows) p ↔
      (leaveOneOutBaseline = true → DifferWithoutOne (promptRewards rows p)) := by
  rw [← groupRewards_withBaselineStd sqrt leaveOneOutBaseline none, KeepsWholeGroup,
    filter_keptRows]
  by_cases hp : p ∈ rows.map (·.promptIds)
  · refine keptRows_group_iff hsqrt (group_std (hcount hp)) ?_
    rw [length_groupRows, promptIds_withBaselineStd]
    exact hcount hp
  · have hnil : groupRows (withBaselineStd sqrt leaveOneOutBaseline none rows) p = [] := by
      apply List.length_eq_zero_iff.mp
      rw [length_groupRows, promptIds_withBaselineStd]
      exact List.count_eq_zero_of_not_mem hp
    rw [groupRewards, hnil]
    refine ⟨fun _ _ => .inl fun x hx => absurd hx List.not_mem_nil, fun _ => ?_⟩
    split_ifs
    · rfl
    · rfl

end Ordered

/-! ## Batches of the loop -/

/-- The prompts of a batch, each repeated for its generations. -/
def repeatInterleave (numRepeats : ℕ) (prompts : List P) : List P :=
  prompts.flatMap (List.replicate numRepeats)

omit [Field K] [LinearOrder K] in
/-- A batch of repeated prompts is the groups of its prompts. -/
theorem eq_flatMap_groupRows {n : ℕ} {prompts : List P} {rows : List (SampleRow P K ρ)}
    (hnodup : prompts.Nodup) (hrows : rows.map (·.promptIds) = repeatInterleave n prompts) :
    rows = prompts.flatMap (groupRows rows) := by
  induction prompts generalizing rows with
  | nil => simpa [repeatInterleave] using hrows
  | cons p prompts ih =>
    obtain ⟨hp, hnodup⟩ := List.nodup_cons.mp hnodup
    rw [repeatInterleave, List.flatMap_cons] at hrows
    obtain ⟨first, rest, rfl, hfirst, hrest⟩ := List.map_eq_append_iff.mp hrows
    have hall : ∀ row ∈ first, row.promptIds = p := by
      intro row hrow
      have hmem : row.promptIds ∈ first.map (·.promptIds) := List.mem_map_of_mem hrow
      rw [hfirst] at hmem
      exact List.eq_of_mem_replicate hmem
    have hother : ∀ row ∈ rest, row.promptIds ∈ prompts := by
      intro row hrow
      have hmem : row.promptIds ∈ rest.map (·.promptIds) := List.mem_map_of_mem hrow
      rw [hrest] at hmem
      obtain ⟨q, hq, hrow⟩ := List.mem_flatMap.mp hmem
      rwa [List.eq_of_mem_replicate hrow]
    have hgroup : groupRows (first ++ rest) p = first := by
      unfold groupRows
      rw [List.filter_append, List.filter_eq_self.mpr (by simpa using hall),
        List.filter_eq_nil_iff.mpr, List.append_nil]
      intro row hrow hsame
      have hmem := hother row hrow
      rw [of_decide_eq_true hsame] at hmem
      exact hp hmem
    have hgroups : ∀ q ∈ prompts, groupRows (first ++ rest) q = groupRows rest q := by
      intro q hq
      unfold groupRows
      rw [List.filter_append, List.filter_eq_nil_iff.mpr, List.nil_append]
      intro row hrow hsame
      rw [hall row hrow] at hsame
      exact hp (of_decide_eq_true hsame ▸ hq)
    rw [List.flatMap_cons, hgroup, List.flatMap_congr hgroups, ← ih hnodup hrest]

omit [Field K] [LinearOrder K] [DecidableEq P] in
theorem flatMap_ite {α β : Type} (q : α → Prop) [DecidablePred q] (f : α → List β) (l : List α) :
    (l.flatMap fun a => if q a then [] else f a) = (l.filter fun a => ¬ q a).flatMap f := by
  induction l with
  | nil => rfl
  | cons a l ih =>
    rw [List.flatMap_cons, ih]
    by_cases ha : q a
    · simp [ha]
    · simp [ha]

/-- Of a batch of repeated prompts whose groups are kept whole, the groups with different
rewards are kept, one after another. -/
theorem keptRows_eq_flatMap {n : ℕ} {prompts : List P} {rows : List (SampleRow P K ρ)}
    (hnodup : prompts.Nodup) (hrows : rows.map (·.promptIds) = repeatInterleave n prompts)
    (hwhole : KeepsWholeGroups rows) :
    keptRows rows = (prompts.filter fun p => ¬ AllEqual (groupRewards rows p)).flatMap
      fun p => (groupRows rows p).map SampleRow.keep := by
  have hgroups : ∀ p, keptRows (groupRows rows p) =
      if AllEqual (groupRewards rows p) then [] else (groupRows rows p).map SampleRow.keep :=
    fun p => (filter_keptRows rows p).symm.trans (hwhole p)
  calc
    keptRows rows = keptRows (prompts.flatMap (groupRows rows)) := by
      rw [← eq_flatMap_groupRows hnodup hrows]
    _ = prompts.flatMap fun p => keptRows (groupRows rows p) := by
      unfold keptRows
      rw [List.filter_flatMap, List.map_flatMap]
    _ = prompts.flatMap fun p => if AllEqual (groupRewards rows p) then []
        else (groupRows rows p).map SampleRow.keep := List.flatMap_congr fun p _ => hgroups p
    _ = _ := flatMap_ite ..

/-! ## Steps on complete groups -/

/-- A group of a batch, by the number of the batch and the prompt. -/
def batchGroup (batches : List (List (SampleRow P K ρ))) (key : ℕ × P) : List (KeptRow P K ρ) :=
  (groupRows ((batches[key.1]?).getD []) key.2).map SampleRow.keep

/-- Some rows are complete groups of the batches, none of them twice. -/
def CompleteGroups (batches : List (List (SampleRow P K ρ))) (rows : List (KeptRow P K ρ)) :
    Prop :=
  ∃ keys : List (ℕ × P), keys.Nodup ∧
    (∀ key ∈ keys, key.2 ∈ ((batches[key.1]?).getD []).map (·.promptIds)) ∧
    rows = keys.flatMap (batchGroup batches)

/-- Complete groups of `n` rows, of the first batches. -/
def CollectedGroups (n : ℕ) (batches : List (List (SampleRow P K ρ))) (seen : ℕ)
    (rows : List (KeptRow P K ρ)) : Prop :=
  ∃ keys : List (ℕ × P), keys.Nodup ∧
    (∀ key ∈ keys, key.1 < seen ∧ key.2 ∈ ((batches[key.1]?).getD []).map (·.promptIds) ∧
      (batchGroup batches key).length = n) ∧
    rows = keys.flatMap (batchGroup batches)

section Complete
variable {n : ℕ} {batches : List (List (SampleRow P K ρ))} {seen : ℕ}
  {rows : List (KeptRow P K ρ)}

omit [Field K] [LinearOrder K] in
theorem CollectedGroups.nil : CollectedGroups n batches seen [] :=
  ⟨[], List.nodup_nil, fun _ h => absurd h List.not_mem_nil, rfl⟩

omit [Field K] [LinearOrder K] in
/-- A cut after a number of groups leaves complete groups. -/
theorem CollectedGroups.take (h : CollectedGroups n batches seen rows) (numPrompts : ℕ) :
    CompleteGroups batches (rows.take (numPrompts * n)) := by
  obtain ⟨keys, hnodup, hkeys, rfl⟩ := h
  refine ⟨keys.take numPrompts, hnodup.sublist (List.take_sublist _ _),
    fun key hkey => (hkeys key (List.mem_of_mem_take hkey)).2.1, ?_⟩
  have hlength : ∀ key ∈ keys, (batchGroup batches key).length = n :=
    fun key hkey => (hkeys key hkey).2.2
  clear hkeys hnodup
  induction keys generalizing numPrompts with
  | nil => simp
  | cons key keys ih =>
    obtain ⟨hfirst, hrest⟩ := List.forall_mem_cons.mp hlength
    cases numPrompts with
    | zero => simp
    | succ numPrompts =>
      rw [List.flatMap_cons, List.take_succ_cons, List.flatMap_cons, Nat.succ_mul,
        Nat.add_comm, ← hfirst, List.take_length_add_append, hfirst, ih numPrompts hrest]

/-- The groups that are kept of a batch are collected. -/
theorem CollectedGroups.append {prompts : List P} {batch : List (SampleRow P K ρ)}
    (h : CollectedGroups n batches seen rows) (hbatch : batches[seen]? = some batch)
    (hn : 0 < n) (hnodup : prompts.Nodup)
    (hrows : batch.map (·.promptIds) = repeatInterleave n prompts)
    (hcount : ∀ p ∈ batch.map (·.promptIds), (batch.map (·.promptIds)).count p = n)
    (hwhole : KeepsWholeGroups batch) :
    CollectedGroups n batches (seen + 1) (rows ++ keptRows batch) := by
  obtain ⟨keys, hkeysNodup, hkeys, rfl⟩ := h
  have hmem : ∀ p ∈ prompts, p ∈ batch.map (·.promptIds) := by
    intro p hp
    rw [hrows]
    exact List.mem_flatMap.mpr ⟨p, hp, List.mem_replicate.mpr ⟨by omega, rfl⟩⟩
  refine ⟨keys ++ (prompts.filter fun p => ¬ AllEqual (groupRewards batch p)).map (Prod.mk seen),
    ?_, ?_, ?_⟩
  · rw [List.nodup_append]
    refine ⟨hkeysNodup, (hnodup.filter _).map fun p q hpq => (Prod.mk.inj hpq).2, ?_⟩
    rintro key hkey _ hnew rfl
    obtain ⟨p, -, rfl⟩ := List.mem_map.mp hnew
    exact absurd (hkeys _ hkey).1 (lt_irrefl seen)
  · intro key hkey
    rcases List.mem_append.mp hkey with hkey | hkey
    · obtain ⟨hlt, hrest⟩ := hkeys key hkey
      exact ⟨Nat.lt_succ_of_lt hlt, hrest⟩
    · obtain ⟨p, hp, rfl⟩ := List.mem_map.mp hkey
      have hprompt := hmem p (List.mem_of_mem_filter hp)
      simp only [batchGroup, hbatch, Option.getD_some, List.length_map, length_groupRows]
      exact ⟨Nat.lt_succ_self seen, hprompt, hcount p hprompt⟩
  · rw [List.flatMap_append, keptRows_eq_flatMap hnodup hrows hwhole, List.flatMap_map]
    congr 1
    apply List.flatMap_congr
    intro p _
    simp [batchGroup, hbatch]

end Complete

end Field

end NemoRL.Algorithms
