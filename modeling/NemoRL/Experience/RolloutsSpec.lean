import NemoRL.Experience.Rollouts
import NemoRL.Lib.IndexPerm

/-!
# Batched and per-sample rollouts

The batch function steps each of its samples as a function of that sample alone, and so does
the function that rolls out one sample. The two steps differ in the stop strings that they pass
to the generation interface, in whether a response that was cut off ends the sample and in the
type in which they add rewards. The functions agree exactly when no reachable turn shows such
a difference.

## Main definitions

* `batchedTurn`, `aloneTurn` — one turn of a sample.
* `TurnAgrees` — the two turns do not differ.

## Main results

* `calculateRewards_eq` — every sample gets what its own environment returns.
* `runMultiTurnRollout_eq` — the batch steps every sample as if it were alone.
* `rollouts_agree_iff` — when the two functions agree.
-/

namespace NemoRL.Experience

open Lib

variable {Tok Info Stop R Acc : Type}

/-! ## Environments -/

/-- What the environment of a sample returns for it. -/
def outcome (env : String → List (String × String) → Info → EnvironmentReturn Info Stop R)
    (sample : Sample Tok Info Stop Acc) : EnvironmentReturn Info Stop R :=
  env sample.taskName (toEnv sample.messageLog) sample.extraEnvInfo

theorem addToGroup_perm (groups : List (String × List ℕ)) (taskName : String) (i : ℕ) :
    ((addToGroup groups taskName i).flatMap Prod.snd).Perm (i :: groups.flatMap Prod.snd) := by
  induction groups with
  | nil => simp [addToGroup]
  | cons group groups ih =>
    obtain ⟨name, indices⟩ := group
    rw [addToGroup]
    split
    · rw [List.flatMap_cons, List.flatMap_cons, List.append_assoc]
      exact List.perm_middle
    · rw [List.flatMap_cons, List.flatMap_cons]
      exact (ih.append_left indices).trans List.perm_middle

/-- A group of a sample that was added is an old group or has the sample and its task. -/
theorem mem_addToGroup {groups : List (String × List ℕ)} {taskName : String} {i : ℕ}
    {group : String × List ℕ} (h : group ∈ addToGroup groups taskName i) :
    group ∈ groups ∨ group.1 = taskName ∧
      ∃ indices, group.2 = indices ++ [i] ∧
        ∀ j ∈ indices, ∃ g ∈ groups, g.1 = taskName ∧ j ∈ g.2 := by
  induction groups with
  | nil =>
    rw [addToGroup, List.mem_singleton] at h
    subst h
    exact Or.inr ⟨rfl, [], rfl, by simp⟩
  | cons head groups ih =>
    obtain ⟨name, indices⟩ := head
    rw [addToGroup] at h
    split at h
    · rename_i hname
      rcases List.mem_cons.mp h with rfl | h
      · exact Or.inr ⟨hname, indices, rfl, fun j hj => ⟨_, List.mem_cons_self, hname, hj⟩⟩
      · exact Or.inl (List.mem_cons_of_mem _ h)
    · rcases List.mem_cons.mp h with rfl | h
      · exact Or.inl List.mem_cons_self
      · rcases ih h with hmem | ⟨htask, rest, hrest, hold⟩
        · exact Or.inl (List.mem_cons_of_mem _ hmem)
        · refine Or.inr ⟨htask, rest, hrest, fun j hj => ?_⟩
          obtain ⟨g, hg, hgname, hjg⟩ := hold j hj
          exact ⟨g, List.mem_cons_of_mem _ hg, hgname, hjg⟩

/-- Groups that hold given samples, each under its task. -/
structure Grouped (samples : List (Sample Tok Info Stop Acc)) (indices : List ℕ)
    (groups : List (String × List ℕ)) : Prop where
  perm : (groups.flatMap Prod.snd).Perm indices
  task : ∀ group ∈ groups, ∀ i ∈ group.2,
    ∃ sample, samples[i]? = some sample ∧ sample.taskName = group.1
  nonempty : ∀ group ∈ groups, group.2 ≠ []

theorem Grouped.addToGroup {samples : List (Sample Tok Info Stop Acc)} {indices : List ℕ}
    {groups : List (String × List ℕ)} (h : Grouped samples indices groups) {i : ℕ}
    {sample : Sample Tok Info Stop Acc} (hi : samples[i]? = some sample) :
    Grouped samples (i :: indices) (addToGroup groups sample.taskName i) where
  perm := (addToGroup_perm groups sample.taskName i).trans (h.perm.cons i)
  task := by
    intro group hgroup j hj
    rcases mem_addToGroup hgroup with hold | ⟨htask, rest, hrest, hmem⟩
    · exact h.task group hold j hj
    · rw [hrest, List.mem_append, List.mem_singleton] at hj
      rcases hj with hj | rfl
      · obtain ⟨g, hg, hgname, hjg⟩ := hmem j hj
        obtain ⟨other, hother, hname⟩ := h.task g hg j hjg
        exact ⟨other, hother, by rw [hname, hgname, htask]⟩
      · exact ⟨sample, hi, htask.symm⟩
  nonempty := by
    intro group hgroup
    rcases mem_addToGroup hgroup with hold | ⟨-, rest, hrest, -⟩
    · exact h.nonempty group hold
    · rw [hrest]
      simp

theorem Grouped.foldl {samples : List (Sample Tok Info Stop Acc)}
    {pairs : List (Sample Tok Info Stop Acc × ℕ)} (hpairs : ∀ p ∈ pairs, samples[p.2]? = some p.1)
    {indices : List ℕ} {groups : List (String × List ℕ)} (h : Grouped samples indices groups) :
    Grouped samples ((pairs.map Prod.snd).reverse ++ indices)
      (pairs.foldl (fun groups p => Experience.addToGroup groups p.1.taskName p.2) groups) := by
  induction pairs generalizing indices groups with
  | nil => exact h
  | cons p pairs ih =>
    have hnext := ih (fun q hq => hpairs q (List.mem_cons_of_mem p hq))
      (h.addToGroup (hpairs p List.mem_cons_self))
    simpa using hnext

/-- The groups of the samples hold every sample once. -/
theorem grouped_taskGroups (samples : List (Sample Tok Info Stop Acc)) :
    Grouped samples (List.range samples.length).reverse (taskGroups samples) := by
  have hpairs : ∀ p ∈ samples.zipIdx, samples[p.2]? = some p.1 := by
    intro p hp
    exact List.mem_zipIdx_iff_getElem?.mp hp
  have hempty : Grouped samples [] [] := ⟨by simp, by simp, by simp⟩
  have hgroups := hempty.foldl hpairs
  rwa [List.append_nil, List.zipIdx_map_snd, ← List.range_eq_range'] at hgroups

section Served
variable {taskToEnv : String →
    Option (List (String × String) → Info → EnvironmentReturn Info Stop R)}
  {env : String → List (String × String) → Info → EnvironmentReturn Info Stop R}
  {samples : List (Sample Tok Info Stop Acc)}

/-- The environment of a task steps the samples of the task. -/
theorem Grouped.stepGroup_eq {indices : List ℕ} {groups : List (String × List ℕ)}
    (hgroups : Grouped samples indices groups)
    (hserved : ∀ sample ∈ samples, taskToEnv sample.taskName = some (env sample.taskName))
    (d : Sample Tok Info Stop Acc) {group : String × List ℕ} (hgroup : group ∈ groups) :
    stepGroup taskToEnv samples group =
      .ok (group.2.map fun i => (outcome env (samples.getD i d), i)) := by
  have htask := hgroups.task group hgroup
  obtain ⟨j, hj⟩ := List.exists_mem_of_ne_nil _ (hgroups.nonempty group hgroup)
  obtain ⟨sample, hsample, hname⟩ := htask j hj
  have henv : taskToEnv group.1 = some (env group.1) := by
    have hsome := hserved sample (List.mem_of_getElem? hsample)
    rwa [hname] at hsome
  have hlt : ∀ i ∈ group.2, i < samples.length := by
    intro i hi
    obtain ⟨s, hs, -⟩ := htask i hi
    exact (List.getElem?_eq_some_iff.mp hs).1
  have houtputs : ∀ i ∈ group.2,
      env group.1 (toEnv (samples.getD i d).messageLog) (samples.getD i d).extraEnvInfo =
        outcome env (samples.getD i d) := by
    intro i hi
    obtain ⟨s, hs, hsname⟩ := htask i hi
    rw [outcome, List.getD_eq_getElem?_getD, hs, Option.getD_some, hsname]
  simp only [stepGroup, henv]
  rw [select_eq_map_getD hlt d, List.map_map]
  conv_lhs => rw [← List.map_id group.2]
  rw [List.map_map, List.zip_map']
  refine congrArg Except.ok (List.map_congr_left fun i hi => ?_)
  simp only [Function.comp_apply, id, houtputs i hi]

/-- Every sample gets what its own environment returns. -/
theorem calculateRewards_eq
    (hserved : ∀ sample ∈ samples, taskToEnv sample.taskName = some (env sample.taskName)) :
    calculateRewards taskToEnv samples = .ok (samples.map (outcome env)) := by
  have hgroups := grouped_taskGroups samples
  cases hsamples : samples with
  | nil => simp [calculateRewards, taskGroups, bind, Except.bind, pure, Except.pure]
  | cons first rest =>
    rw [← hsamples]
    let value : ℕ → EnvironmentReturn Info Stop R := fun i => outcome env (samples.getD i first)
    have hflat : ((taskGroups samples).map fun group =>
        group.2.map fun i => (value i, i)).flatten =
        ((taskGroups samples).flatMap Prod.snd).map fun i => (value i, i) := by
      rw [← List.flatMap_def, List.map_flatMap]
    have hperm := hgroups.perm.trans (List.reverse_perm _)
    have hvalue : (List.range samples.length).map value = samples.map (outcome env) := by
      have hselect : select samples (List.range samples.length) =
          (List.range samples.length).map fun i => samples.getD i first :=
        select_eq_map_getD (fun i hi => List.mem_range.mp hi) first
      rw [select_range] at hselect
      have hmap := congrArg (List.map (outcome env)) hselect
      rw [List.map_map] at hmap
      exact hmap.symm
    have hresults : (taskGroups samples).mapM (stepGroup taskToEnv samples) =
        .ok ((taskGroups samples).map fun group => group.2.map fun i => (value i, i)) :=
      mapM_of_forall fun group hgroup => hgroups.stepGroup_eq hserved first hgroup
    simp only [calculateRewards, bind, Except.bind, pure, Except.pure, hresults]
    rw [hflat, mergeSort_indices hperm, List.map_map]
    exact congrArg Except.ok hvalue

end Served

/-! ## One turn of a sample -/

section Turns
variable (I : Interfaces Tok Info Stop R Acc)
  (env : String → List (String × String) → Info → EnvironmentReturn Info Stop R)
  (hasStopStrings : Bool) (maxSeqLen : ℕ)

/-- One turn of a sample of the batch. Returns whether the sample is done. -/
def batchedTurn [Add R] (sample : Sample Tok Info Stop R) : Sample Tok Info Stop R × Bool :=
  let answered := generateResponse I hasStopStrings sample
  observed I maxSeqLen answered.1 answered.2 (outcome env answered.1)

/-- One turn of a sample alone. Returns whether the sample is done. -/
def aloneTurn [Add Acc] (state : SampleState Tok Info Stop Acc) :
    SampleState Tok Info Stop Acc × Bool :=
  let answered := asyncGenerateResponseForSampleTurn I state
  let next := sampleObserved I maxSeqLen answered.1 answered.2 (outcome env answered.1.toSample)
  (next, next.terminated || next.truncated)

/-- The generation interface keeps the maximal sequence length. -/
def RespectsLimit : Prop :=
  ∀ tokens stops, tokens.length < maxSeqLen →
    tokens.length + (I.generate tokens stops).1.length ≤ maxSeqLen

/-- The response to a sample in the batch. -/
def batchedResponse (sample : Sample Tok Info Stop R) : List Tok × Bool :=
  I.generate (flatTokens sample.messageLog) (if hasStopStrings then sample.stopStrings else none)

/-- The response to a sample alone. -/
def aloneResponse (state : SampleState Tok Info Stop Acc) : List Tok × Bool :=
  I.generate (flatTokens state.messageLog) state.stopStrings

/-- What the environment returns for the response to a sample in the batch. -/
def batchedOutput (sample : Sample Tok Info Stop R) : EnvironmentReturn Info Stop R :=
  outcome env (generateResponse I hasStopStrings sample).1

/-- What the environment returns for the response to a sample alone. -/
def aloneOutput (state : SampleState Tok Info Stop Acc) : EnvironmentReturn Info Stop R :=
  outcome env (asyncGenerateResponseForSampleTurn I state).1.toSample

/-- The messages of a turn: the response, and the observation cut to the tokens that are
left. -/
def turnMessages (messageLog : List (Message Tok)) (ids : List Tok)
    (output : EnvironmentReturn Info Stop R) : List (Message Tok) :=
  [⟨"assistant", I.decode ids, ids⟩,
    ⟨output.observationRole, output.observationContent, (I.tokenizer output.observationContent).take
      (maxSeqLen - (ids.length + (flatTokens messageLog).length))⟩]

/-- A sample with its response and its observation reaches the maximal sequence length. -/
def Overflows (sample : Sample Tok Info Stop R) : Prop :=
  maxSeqLen ≤ (I.tokenizer (batchedOutput I env hasStopStrings sample).observationContent).length +
    ((batchedResponse I hasStopStrings sample).1.length + (flatTokens sample.messageLog).length)

instance decidableOverflows (sample : Sample Tok Info Stop R) :
    Decidable (Overflows I env hasStopStrings maxSeqLen sample) :=
  inferInstanceAs (Decidable (_ ≤ _))

/-- The turns of a sample in the batch and alone do not differ: the sample gets the same
response, its rewards have the same sum, and, if it does not overflow, the response is cut off
in both or in none of the turns, and in both only if the environment terminates the sample. -/
structure TurnAgrees [Add R] [Add Acc] (sample : Sample Tok Info Stop R)
    (state : SampleState Tok Info Stop Acc) : Prop where
  response : (batchedResponse I hasStopStrings sample).1 = (aloneResponse I state).1
  reward : sample.totalReward + (batchedOutput I env hasStopStrings sample).reward =
    I.tensor (state.totalReward + I.item (batchedOutput I env hasStopStrings sample).reward)
  truncated : ¬ Overflows I env hasStopStrings maxSeqLen sample →
    (batchedResponse I hasStopStrings sample).2 = (aloneResponse I state).2
  ends : ¬ Overflows I env hasStopStrings maxSeqLen sample → (aloneResponse I state).2 = true →
    (batchedOutput I env hasStopStrings sample).terminated = true

/-- A sample that can take a turn. -/
structure Ready {T : Type} (sample : Sample Tok Info Stop T) : Prop where
  short : (flatTokens sample.messageLog).length < maxSeqLen
  served : I.taskToEnv sample.taskName = some (env sample.taskName)

end Turns

section Batch
variable [Add R] {I : Interfaces Tok Info Stop R Acc}
  {env : String → List (String × String) → Info → EnvironmentReturn Info Stop R}
  {hasStopStrings : Bool} {maxSeqLen : ℕ}

@[simp] theorem flatTokens_append (l l' : List (Message Tok)) :
    flatTokens (l ++ l') = flatTokens l ++ flatTokens l' := List.flatMap_append

@[simp] theorem flatTokens_singleton (message : Message Tok) :
    flatTokens [message] = message.tokenIds := by simp [flatTokens]

/-- An observation that does not overflow is not cut. -/
theorem cut_eq_take (tokens : List Tok) (m used : ℕ) :
    (if decide (tokens.length + used ≥ m) = true then tokens.take (m - used) else tokens) =
      tokens.take (m - used) := by
  split
  · rfl
  · rename_i hfits
    simp only [decide_eq_true_eq] at hfits
    rw [List.take_of_length_le (by omega)]

theorem sampleCut_eq_take (tokens : List Tok) (m i g : ℕ) :
    (if decide (i + g + tokens.length ≥ m) = true then
      if m - i - g > 0 then tokens.take (m - i - g) else [] else tokens) =
      tokens.take (m - (g + i)) := by
  have hleft : m - i - g = m - (g + i) := by omega
  rw [hleft]
  split
  · split
    · rfl
    · rename_i hzero
      rw [Nat.eq_zero_of_not_pos hzero, List.take_zero]
  · rename_i hfits
    simp only [decide_eq_true_eq] at hfits
    rw [List.take_of_length_le (by omega)]

/-- A response within the limit leaves no negative number of tokens. -/
theorem observe_eq {sample : Sample Tok Info Stop R} {generated : Generated Tok}
    (h : generated.generatedIds.length + generated.inputLength ≤ maxSeqLen)
    (envOutput : EnvironmentReturn Info Stop R) :
    observe I maxSeqLen sample generated envOutput =
      .ok (observed I maxSeqLen sample generated envOutput) :=
  if_neg fun hover => absurd hover.2 (by omega)

/-- A sample that goes on can take a turn again. -/
theorem Ready.batchedTurn {sample : Sample Tok Info Stop R}
    (h : Ready I env maxSeqLen sample)
    (hgoes : (batchedTurn I env hasStopStrings maxSeqLen sample).2 = false) :
    Ready I env maxSeqLen (batchedTurn I env hasStopStrings maxSeqLen sample).1 where
  short := by
    simp only [Experience.batchedTurn, observed, generateResponse, Bool.or_eq_false_iff] at hgoes ⊢
    have hfits := of_decide_eq_false hgoes.1
    simp only [hgoes.1, Bool.false_eq_true, if_false, flatTokens_append, flatTokens_singleton,
      List.length_append]
    omega
  served := h.served

theorem batchedTurn_truncated (sample : Sample Tok Info Stop R) :
    (batchedTurn I env hasStopStrings maxSeqLen sample).1.truncated =
      (sample.truncated || (batchedResponse I hasStopStrings sample).2 ||
        decide (Overflows I env hasStopStrings maxSeqLen sample)) := rfl

theorem batchedTurn_done (sample : Sample Tok Info Stop R) :
    (batchedTurn I env hasStopStrings maxSeqLen sample).2 =
      (decide (Overflows I env hasStopStrings maxSeqLen sample) ||
        (batchedOutput I env hasStopStrings sample).terminated) := rfl

/-- A turn of the batch appends the response and the observation. -/
theorem batchedTurn_messageLog (sample : Sample Tok Info Stop R) :
    (batchedTurn I env hasStopStrings maxSeqLen sample).1.messageLog =
      sample.messageLog ++
        turnMessages I maxSeqLen sample.messageLog (batchedResponse I hasStopStrings sample).1
          (batchedOutput I env hasStopStrings sample) := by
  simp only [batchedTurn, observed, cut_eq_take]
  rw [generateResponse, List.append_assoc]
  rfl

variable (hgen : RespectsLimit I maxSeqLen)
include hgen

/-- A turn of the batch steps its active samples. -/
theorem rolloutTurn_eq {state : ActiveSet (Sample Tok Info Stop R)}
    (hstate : state.Valid (Ready I env maxSeqLen)) :
    rolloutTurn I hasStopStrings maxSeqLen state =
      .ok (state.step (batchedTurn I env hasStopStrings maxSeqLen)) := by
  have hready : ∀ sample ∈ select state.rows state.active, Ready I env maxSeqLen sample := by
    intro sample hsample
    obtain ⟨i, hi, hget⟩ := List.mem_filterMap.mp hsample
    obtain ⟨s, hs, hP⟩ := hstate.rows i hi
    rw [hs, Option.some.injEq] at hget
    exact hget ▸ hP
  have hrewards : calculateRewards I.taskToEnv
      ((generateResponses I hasStopStrings (select state.rows state.active)).map Prod.fst) =
      .ok ((select state.rows state.active).map fun sample =>
        outcome env (generateResponse I hasStopStrings sample).1) := by
    rw [generateResponses, List.map_map, calculateRewards_eq, List.map_map]
    · rfl
    · intro answered hanswered
      obtain ⟨sample, hsample, rfl⟩ := List.mem_map.mp hanswered
      exact (hready sample hsample).served
  have hobserved : ((generateResponses I hasStopStrings (select state.rows state.active)).zip
      ((select state.rows state.active).map fun sample =>
        outcome env (generateResponse I hasStopStrings sample).1)).mapM
        (fun p => observe I maxSeqLen p.1.1 p.1.2 p.2) =
      .ok ((select state.rows state.active).map (batchedTurn I env hasStopStrings maxSeqLen)) := by
    rw [generateResponses, List.zip_map', mapM_eq_ok, List.forall₂_map_left_iff,
      List.forall₂_map_right_iff, List.forall₂_same]
    intro sample hsample
    have hlimit := hgen (flatTokens sample.messageLog)
      (if hasStopStrings then sample.stopStrings else none) (hready sample hsample).short
    refine observe_eq ?_ _
    rw [Nat.add_comm]
    exact hlimit
  simp only [rolloutTurn, bind, Except.bind, pure, Except.pure, hrewards, hobserved, List.map_map]
  rfl

/-- The turns of the batch step its active samples. -/
theorem rolloutLoop_eq {state : ActiveSet (Sample Tok Info Stop R)}
    (hstate : state.Valid (Ready I env maxSeqLen)) (turns : ℕ) :
    rolloutLoop I hasStopStrings maxSeqLen turns state =
      .ok (ActiveSet.run (batchedTurn I env hasStopStrings maxSeqLen) turns state) := by
  induction turns generalizing state with
  | zero => rfl
  | succ turns ih =>
    rw [rolloutLoop, ActiveSet.run]
    split
    · rfl
    · rw [rolloutTurn_eq hgen hstate]
      exact ih (hstate.step fun sample hready => hready.batchedTurn)

/-- The batch steps every sample as if it were alone. -/
theorem runMultiTurnRollout_eq [Zero R] {inputBatch : InputBatch Tok Info Stop}
    (hrows : inputBatch.rows ≠ [])
    (hready : ∀ row ∈ inputBatch.rows, Ready I env maxSeqLen (Sample.ofDatum (R := R) row))
    (maxRolloutTurns : ℕ) :
    runMultiTurnRollout I maxSeqLen inputBatch maxRolloutTurns =
      .ok (inputBatch.rows.map fun row =>
        runUntil (batchedTurn I env inputBatch.hasStopStrings maxSeqLen) maxRolloutTurns
          (Sample.ofDatum row)) := by
  have hvalid : ActiveSet.Valid (Ready I env maxSeqLen)
      ⟨inputBatch.rows.map (Sample.ofDatum (R := R)), List.range inputBatch.rows.length⟩ := by
    refine ⟨List.nodup_range, fun i hi => ?_⟩
    have hlt : i < inputBatch.rows.length := List.mem_range.mp hi
    exact ⟨_, by rw [List.getElem?_map, List.getElem?_eq_getElem hlt, Option.map_some],
      hready _ (List.getElem_mem hlt)⟩
  simp only [runMultiTurnRollout, bind, Except.bind, pure, Except.pure,
    rolloutLoop_eq hgen hvalid, List.isEmpty_iff, hrows, if_false]
  refine congrArg Except.ok (List.ext_getElem? fun i => ?_)
  rw [hvalid.getElem?_run (fun sample h => h.batchedTurn), List.getElem?_map, List.getElem?_map]
  split
  · rw [Option.map_map]
    rfl
  · rename_i hi
    rw [List.getElem?_eq_none (by simpa using hi)]
    rfl

end Batch

/-! ## One sample alone -/

section Alone
variable [Add Acc] {I : Interfaces Tok Info Stop R Acc}
  {env : String → List (String × String) → Info → EnvironmentReturn Info Stop R} {maxSeqLen : ℕ}

theorem aloneTurn_done (state : SampleState Tok Info Stop Acc) :
    (aloneTurn I env maxSeqLen state).2 = ((aloneTurn I env maxSeqLen state).1.terminated ||
      (aloneTurn I env maxSeqLen state).1.truncated) := rfl

/-- A turn of a sample alone appends the response and the observation. -/
theorem aloneTurn_messageLog (state : SampleState Tok Info Stop Acc) :
    (aloneTurn I env maxSeqLen state).1.messageLog =
      state.messageLog ++ turnMessages I maxSeqLen state.messageLog (aloneResponse I state).1
        (aloneOutput I env state) := by
  simp only [aloneTurn, sampleObserved, sampleCut_eq_take]
  rw [asyncGenerateResponseForSampleTurn, List.append_assoc]
  rfl

theorem sampleTurn_eq {state : SampleState Tok Info Stop Acc}
    (hserved : I.taskToEnv state.taskName = some (env state.taskName)) :
    sampleTurn I maxSeqLen state = .ok (aloneTurn I env maxSeqLen state).1 := by
  have hrewards : calculateRewards I.taskToEnv
      [(asyncGenerateResponseForSampleTurn I state).1.toSample] =
      .ok [outcome env (asyncGenerateResponseForSampleTurn I state).1.toSample] := by
    refine calculateRewards_eq fun sample hsample => ?_
    rw [List.mem_singleton.mp hsample]
    exact hserved
  simp only [sampleTurn, bind, Except.bind, pure, Except.pure, hrewards]
  rfl

/-- The turns of a sample end when it is terminated or truncated. -/
theorem sampleLoop_eq {state : SampleState Tok Info Stop Acc}
    (hserved : I.taskToEnv state.taskName = some (env state.taskName)) (turns : ℕ) :
    sampleLoop I maxSeqLen turns state =
      .ok (if state.terminated || state.truncated then state
        else runUntil (aloneTurn I env maxSeqLen) turns state) := by
  induction turns generalizing state with
  | zero => rw [sampleLoop, runUntil_zero, ite_self]
  | succ turns ih =>
    rw [sampleLoop]
    split
    · rfl
    · rw [sampleTurn_eq hserved]
      exact ih hserved

/-- Every sample is stepped alone. -/
theorem runAsyncMultiTurnRollout_eq [Zero Acc] {inputBatch : InputBatch Tok Info Stop}
    (hrows : inputBatch.rows ≠ [])
    (hserved : ∀ row ∈ inputBatch.rows, I.taskToEnv row.taskName = some (env row.taskName))
    (maxRolloutTurns : ℕ) :
    runAsyncMultiTurnRollout I maxSeqLen inputBatch maxRolloutTurns =
      .ok (inputBatch.rows.map fun row =>
        (runUntil (aloneTurn I env maxSeqLen) maxRolloutTurns
          (SampleState.ofDatum row)).finalSample I) := by
  have hsample : ∀ p ∈ inputBatch.rows.zipIdx,
      runSingleSampleWithErrorHandling I maxSeqLen maxRolloutTurns p =
        .ok ((runUntil (aloneTurn I env maxSeqLen) maxRolloutTurns
          (SampleState.ofDatum p.1)).finalSample I) := by
    intro p hp
    let start : SampleState Tok Info Stop Acc := SampleState.ofDatum p.1
    have hstart : I.taskToEnv start.taskName = some (env start.taskName) :=
      hserved p.1 (List.fst_mem_of_mem_zipIdx hp)
    rw [runSingleSampleWithErrorHandling, runSampleMultiTurnRollout, sampleLoop_eq hstart]
    rfl
  have hsamples : inputBatch.rows.zipIdx.map (fun p =>
      (runUntil (aloneTurn I env maxSeqLen) maxRolloutTurns
        (SampleState.ofDatum p.1)).finalSample I) =
      inputBatch.rows.map fun row => (runUntil (aloneTurn I env maxSeqLen) maxRolloutTurns
        (SampleState.ofDatum row)).finalSample I := by
    conv_rhs => rw [← List.zipIdx_map_fst 0 inputBatch.rows, List.map_map]
    rfl
  simp only [runAsyncMultiTurnRollout, bind, Except.bind, pure, Except.pure,
    mapM_of_forall hsample, hsamples, List.isEmpty_iff, List.map_eq_nil_iff, hrows, if_false]

end Alone

/-! ## When the functions agree -/

section Agree
variable [Add R] [Add Acc] {I : Interfaces Tok Info Stop R Acc}
  {env : String → List (String × String) → Info → EnvironmentReturn Info Stop R}
  {hasStopStrings : Bool} {maxSeqLen : ℕ}

/-- The roles and tokens of the messages of a sample, its reward and whether it was cut off. -/
def result (sample : Sample Tok Info Stop R) : List (String × List Tok) × R × Bool :=
  (sample.messageLog.map fun message => (message.role, message.tokenIds), sample.totalReward,
    sample.truncated)

/-- Both functions return the same results, or both fail. -/
def RolloutsAgree (batched alone : Except PyError (List (Sample Tok Info Stop R))) : Prop :=
  match batched, alone with
  | .ok samples, .ok samples' => samples.map result = samples'.map result
  | .error _, .error _ => True
  | _, _ => False

/-- A sample in the batch and alone between two turns. The stop strings may differ. -/
structure Same (I : Interfaces Tok Info Stop R Acc) (sample : Sample Tok Info Stop R)
    (state : SampleState Tok Info Stop Acc) : Prop where
  messageLog : state.messageLog = sample.messageLog
  extraEnvInfo : state.extraEnvInfo = sample.extraEnvInfo
  taskName : state.taskName = sample.taskName
  totalReward : I.tensor state.totalReward = sample.totalReward
  truncated : sample.truncated = false
  truncated' : state.truncated = false

namespace Same
variable {sample : Sample Tok Info Stop R} {state : SampleState Tok Info Stop Acc}
  (h : Same I sample state)
include h

/-- The same results come from the same response. -/
theorem response_eq (hresult : result (batchedTurn I env hasStopStrings maxSeqLen sample).1 =
      result ((aloneTurn I env maxSeqLen state).1.finalSample I)) :
    (batchedResponse I hasStopStrings sample).1 = (aloneResponse I state).1 := by
  have hmessages := congrArg Prod.fst hresult
  simp only [result, SampleState.finalSample, batchedTurn_messageLog, aloneTurn_messageLog,
    h.messageLog, List.map_append, List.append_cancel_left_eq, turnMessages, List.map_cons,
    List.cons.injEq, Prod.mk.injEq, true_and] at hmessages
  exact hmessages.1

variable (hresponse : (batchedResponse I hasStopStrings sample).1 = (aloneResponse I state).1)
include hresponse

omit [Add R] [Add Acc] in
/-- The environment returns the same for the same response. -/
theorem output_eq : aloneOutput I env state = batchedOutput I env hasStopStrings sample := by
  simp only [batchedResponse, aloneResponse] at hresponse
  simp only [aloneOutput, outcome, batchedOutput, asyncGenerateResponseForSampleTurn,
    generateResponse, hresponse, h.messageLog, h.extraEnvInfo, h.taskName]

/-- The same response leads to the same messages. -/
theorem messageLog_eq : (aloneTurn I env maxSeqLen state).1.messageLog =
    (batchedTurn I env hasStopStrings maxSeqLen sample).1.messageLog := by
  rw [aloneTurn_messageLog, batchedTurn_messageLog, h.messageLog, h.output_eq hresponse, hresponse]

omit [Add R] in
theorem truncated_eq : (aloneTurn I env maxSeqLen state).1.truncated =
    (state.truncated || (aloneResponse I state).2 ||
      decide (Overflows I env hasStopStrings maxSeqLen sample)) := by
  have hover : (flatTokens state.messageLog).length + (aloneResponse I state).1.length +
      (I.tokenizer (aloneOutput I env state).observationContent).length ≥ maxSeqLen ↔
      Overflows I env hasStopStrings maxSeqLen sample := by
    rw [h.output_eq hresponse, ← hresponse, h.messageLog, Overflows]
    omega
  rw [← decide_eq_decide.mpr hover]
  rfl

omit [Add R] in
theorem terminated_eq : (aloneTurn I env maxSeqLen state).1.terminated =
    (batchedOutput I env hasStopStrings sample).terminated := by
  rw [← h.output_eq hresponse]
  rfl

end Same

/-- A turn shows the same results exactly when the turns do not differ. -/
theorem Same.turnAgrees_iff {sample : Sample Tok Info Stop R}
    {state : SampleState Tok Info Stop Acc} (h : Same I sample state) :
    result (batchedTurn I env hasStopStrings maxSeqLen sample).1 =
        result ((aloneTurn I env maxSeqLen state).1.finalSample I) ∧
      (batchedTurn I env hasStopStrings maxSeqLen sample).2 =
        (aloneTurn I env maxSeqLen state).2 ↔
      TurnAgrees I env hasStopStrings maxSeqLen sample state := by
  by_cases hresponse : (batchedResponse I hasStopStrings sample).1 = (aloneResponse I state).1
  · have hreward : (batchedTurn I env hasStopStrings maxSeqLen sample).1.totalReward =
        sample.totalReward + (batchedOutput I env hasStopStrings sample).reward := rfl
    have hreward' : (aloneTurn I env maxSeqLen state).1.totalReward =
        state.totalReward + I.item (batchedOutput I env hasStopStrings sample).reward := by
      rw [← h.output_eq hresponse]
      rfl
    simp only [result, SampleState.finalSample, h.messageLog_eq hresponse, hreward, hreward',
      batchedTurn_truncated, batchedTurn_done, aloneTurn_done, h.truncated_eq hresponse,
      h.terminated_eq hresponse, h.truncated, h.truncated', Bool.false_or, Prod.mk.injEq, true_and]
    constructor
    · rintro ⟨⟨hsum, hcut⟩, hdone⟩
      refine ⟨hresponse, hsum, fun hfits => ?_, fun hfits hends => ?_⟩
      · simpa [hfits] using hcut
      · simpa [hfits, hends] using hdone
    · intro hturn
      refine ⟨⟨hturn.reward, ?_⟩, ?_⟩
      · by_cases hover : Overflows I env hasStopStrings maxSeqLen sample
        · simp [hover]
        · simp [hover, hturn.truncated hover]
      · by_cases hover : Overflows I env hasStopStrings maxSeqLen sample
        · simp [hover]
        · have hends := hturn.ends hover
          cases hcut : (aloneResponse I state).2 with
          | true => simp [hover, hends hcut]
          | false => simp [hover]
  · refine ⟨fun hturn => absurd (h.response_eq hturn.1) hresponse, fun hturn => ?_⟩
    exact absurd hturn.response hresponse

/-- A sample that goes on after turns that do not differ is the same again. -/
theorem Same.next {sample : Sample Tok Info Stop R} {state : SampleState Tok Info Stop Acc}
    (h : Same I sample state) (hturn : TurnAgrees I env hasStopStrings maxSeqLen sample state)
    (hgoes : (batchedTurn I env hasStopStrings maxSeqLen sample).2 = false)
    (hgoes' : (aloneTurn I env maxSeqLen state).2 = false) :
    Same I (batchedTurn I env hasStopStrings maxSeqLen sample).1
      (aloneTurn I env maxSeqLen state).1 := by
  rw [aloneTurn_done, Bool.or_eq_false_iff] at hgoes'
  obtain ⟨hterminated, htruncated⟩ := hgoes'
  obtain ⟨hresult, -⟩ := h.turnAgrees_iff.mpr hturn
  have htotal := congrArg (fun p => p.2.1) hresult
  have hcut := congrArg (fun p => p.2.2) hresult
  have hinfo : (batchedTurn I env hasStopStrings maxSeqLen sample).1.extraEnvInfo =
      if (batchedTurn I env hasStopStrings maxSeqLen sample).2 then sample.extraEnvInfo
      else (batchedOutput I env hasStopStrings sample).metadata.getD sample.extraEnvInfo := rfl
  have hinfo' : (aloneTurn I env maxSeqLen state).1.extraEnvInfo =
      if !(aloneTurn I env maxSeqLen state).1.terminated &&
        !(aloneTurn I env maxSeqLen state).1.truncated then
        (aloneOutput I env state).metadata.getD state.extraEnvInfo else state.extraEnvInfo := rfl
  refine ⟨h.messageLog_eq hturn.response, ?_, h.taskName, htotal.symm, ?_, htruncated⟩
  · rw [hinfo, hinfo', hgoes, hterminated, htruncated, h.output_eq hturn.response, h.extraEnvInfo]
    rfl
  · exact hcut.trans htruncated

/-- Samples that step together without a difference are the same. -/
theorem Same.lockstep {sample : Sample Tok Info Stop R} {state : SampleState Tok Info Stop Acc}
    (h : Same I sample state)
    (hstep : ∀ b s, Lockstep (batchedTurn I env hasStopStrings maxSeqLen)
      (aloneTurn I env maxSeqLen) sample state b s → Same I b s →
      TurnAgrees I env hasStopStrings maxSeqLen b s)
    {b : Sample Tok Info Stop R} {s : SampleState Tok Info Stop Acc}
    (hreach : Lockstep (batchedTurn I env hasStopStrings maxSeqLen)
      (aloneTurn I env maxSeqLen) sample state b s) : Same I b s := by
  induction hreach with
  | start => exact h
  | next hstart hgoes hgoes' ih => exact ih.next (hstep _ _ hstart ih) hgoes hgoes'

omit [Add Acc] in
/-- Every turn adds messages. -/
theorem length_batchedTurn_lt (sample : Sample Tok Info Stop R) :
    (result sample).1.length <
      (result (batchedTurn I env hasStopStrings maxSeqLen sample).1).1.length := by
  simp [result, batchedTurn_messageLog, turnMessages]

omit [Add R] in
theorem length_aloneTurn_lt (state : SampleState Tok Info Stop Acc) :
    (result (state.finalSample I)).1.length <
      (result ((aloneTurn I env maxSeqLen state).1.finalSample I)).1.length := by
  simp [result, SampleState.finalSample, aloneTurn_messageLog, turnMessages]

/-- A sample has the same result for every number of turns exactly when no turn that it
reaches in both functions differs. -/
theorem Same.agree_iff {sample : Sample Tok Info Stop R} {state : SampleState Tok Info Stop Acc}
    (h : Same I sample state) :
    (∀ n, result (runUntil (batchedTurn I env hasStopStrings maxSeqLen) n sample) =
      result ((runUntil (aloneTurn I env maxSeqLen) n state).finalSample I)) ↔
      ∀ b s, Lockstep (batchedTurn I env hasStopStrings maxSeqLen) (aloneTurn I env maxSeqLen)
        sample state b s → TurnAgrees I env hasStopStrings maxSeqLen b s := by
  have hstart : result sample = result (state.finalSample I) := by
    simp only [result, SampleState.finalSample, h.messageLog, h.totalReward, h.truncated,
      h.truncated']
  refine (runUntil_agree_iff result
    (fun s : SampleState Tok Info Stop Acc => result (s.finalSample I))
    (fun observed => observed.1.length) length_batchedTurn_lt length_aloneTurn_lt
    hstart).trans ⟨fun hagree b s hreach => ?_, fun hturns b s hreach => ?_⟩
  · have hsame := h.lockstep (fun b s hreach hsame => hsame.turnAgrees_iff.mp (hagree b s hreach))
      hreach
    exact hsame.turnAgrees_iff.mp (hagree b s hreach)
  · have hsame := h.lockstep (fun b s hreach _ => hturns b s hreach) hreach
    exact hsame.turnAgrees_iff.mpr (hturns b s hreach)

omit [Add R] [Add Acc] in
/-- A sample before its first turn. -/
theorem same_ofDatum [Zero R] [Zero Acc] (hzero : I.tensor 0 = 0) (row : Datum Tok Info Stop) :
    Same I (Sample.ofDatum row) (SampleState.ofDatum row) :=
  ⟨rfl, rfl, rfl, hzero, rfl, rfl⟩

/-- Both functions fail for an empty batch. -/
theorem rolloutsAgree_nil [Zero R] [Zero Acc] {inputBatch : InputBatch Tok Info Stop}
    (hrows : inputBatch.rows = []) (n : ℕ) :
    RolloutsAgree (runMultiTurnRollout I maxSeqLen inputBatch n)
      (runAsyncMultiTurnRollout I maxSeqLen inputBatch n) := by
  have hloop : rolloutLoop I inputBatch.hasStopStrings maxSeqLen n ⟨[], []⟩ =
      .ok (⟨[], []⟩ : ActiveSet (Sample Tok Info Stop R)) := by
    cases n with
    | zero => rfl
    | succ n => rfl
  rw [runMultiTurnRollout, runAsyncMultiTurnRollout, hrows, List.map_nil, List.length_nil,
    List.range_zero, hloop]
  trivial

section Batch
variable [Zero R] [Zero Acc] {inputBatch : InputBatch Tok Info Stop}
  (hgen : RespectsLimit I maxSeqLen)
  (hready : ∀ row ∈ inputBatch.rows, Ready I env maxSeqLen (Sample.ofDatum (R := R) row))
include hgen hready

/-- Both functions return for a batch with samples. -/
theorem rollouts_return (hrows : inputBatch.rows ≠ []) (n : ℕ) :
    ∃ samples samples', runMultiTurnRollout I maxSeqLen inputBatch n = .ok samples ∧
      runAsyncMultiTurnRollout I maxSeqLen inputBatch n = .ok samples' := by
  have hbatched := runMultiTurnRollout_eq hgen hrows hready n
  have hserved : ∀ row ∈ inputBatch.rows, I.taskToEnv row.taskName = some (env row.taskName) :=
    fun row hrow => (hready row hrow).served
  exact ⟨_, _, hbatched, runAsyncMultiTurnRollout_eq hrows hserved n⟩

/-- The functions agree when the loops of every sample do. -/
theorem rolloutsAgree_iff_runs (n : ℕ) :
    RolloutsAgree (runMultiTurnRollout I maxSeqLen inputBatch n)
      (runAsyncMultiTurnRollout I maxSeqLen inputBatch n) ↔
    ∀ row ∈ inputBatch.rows,
      result (runUntil (batchedTurn I env inputBatch.hasStopStrings maxSeqLen) n
        (Sample.ofDatum row)) =
      result ((runUntil (aloneTurn I env maxSeqLen) n (SampleState.ofDatum row)).finalSample
        I) := by
  by_cases hrows : inputBatch.rows = []
  · refine iff_of_true (rolloutsAgree_nil hrows n) fun row hrow => ?_
    rw [hrows] at hrow
    exact nomatch hrow
  · rw [runMultiTurnRollout_eq hgen hrows hready n,
      runAsyncMultiTurnRollout_eq hrows (fun row hrow => (hready row hrow).served) n,
      RolloutsAgree, List.map_map, List.map_map, List.map_inj_left]
    rfl

end Batch

/-- An environment that ends a sample after its second turn. -/
def game (nextStopStrings : Option ℕ) :
    String → List (String × String) → Unit → EnvironmentReturn Unit ℕ ℕ :=
  fun _ messages _ => ⟨"user", "", none, nextStopStrings, 1, 4 ≤ messages.length⟩

/-- A generation interface whose responses show whether there are stop strings. -/
def gameInterfaces (nextStopStrings : Option ℕ) (truncated : Bool) :
    Interfaces ℕ Unit ℕ ℕ ℕ where
  generate := fun _ stopStrings => ([if stopStrings.isSome then 2 else 1], truncated)
  decode := fun _ => ""
  tokenizer := fun _ => [9]
  taskToEnv := fun taskName => some (game nextStopStrings taskName)
  item := id
  tensor := id

/-- A sample with a prompt of one token. -/
def gameBatch (stopStrings : Option ℕ) : InputBatch ℕ Unit ℕ where
  rows := [⟨[⟨"user", "", [5]⟩], (), "game", stopStrings⟩]
  hasStopStrings := stopStrings.isSome
  noStopStrings := by
    intro hnone row hrow
    rw [List.mem_singleton.mp hrow]
    simpa using hnone

theorem game_respectsLimit (nextStopStrings : Option ℕ) (truncated : Bool) :
    RespectsLimit (gameInterfaces nextStopStrings truncated) 100 :=
  fun _ _ hlt => hlt

theorem game_ready (nextStopStrings stopStrings : Option ℕ) (truncated : Bool) :
    ∀ row ∈ (gameBatch stopStrings).rows,
      Ready (gameInterfaces nextStopStrings truncated) (game nextStopStrings) 100
        (Sample.ofDatum (R := ℕ) row) := by
  intro row hrow
  rw [List.mem_singleton.mp hrow]
  exact ⟨by simp [Sample.ofDatum, flatTokens], rfl⟩

/-- An environment that lets a sample go on returns stop strings exactly if the batch has them,
a response that is cut off fills the context, and no sum of rewards is rounded. -/
structure Uniform (I : Interfaces Tok Info Stop R Acc)
    (env : String → List (String × String) → Info → EnvironmentReturn Info Stop R)
    (hasStopStrings : Bool) (maxSeqLen : ℕ) : Prop where
  stops : ∀ task messages info, (env task messages info).terminated = false →
    (env task messages info).nextStopStrings.isSome = hasStopStrings
  cut : ∀ tokens stops, (I.generate tokens stops).2 = true →
    maxSeqLen ≤ tokens.length + (I.generate tokens stops).1.length
  reward : ∀ total reward, I.tensor (total + I.item reward) = I.tensor total + reward

/-- The batch passes the stop strings that the sample has alone. -/
def SameStops (hasStopStrings : Bool) (sample : Sample Tok Info Stop R)
    (state : SampleState Tok Info Stop Acc) : Prop :=
  (if hasStopStrings then sample.stopStrings else none) = state.stopStrings

/-- Turns with the same stop strings do not differ. -/
theorem Same.turnAgrees {sample : Sample Tok Info Stop R} {state : SampleState Tok Info Stop Acc}
    (h : Same I sample state) (hstops : SameStops hasStopStrings sample state)
    (huniform : Uniform I env hasStopStrings maxSeqLen) :
    TurnAgrees I env hasStopStrings maxSeqLen sample state := by
  have hresponse : batchedResponse I hasStopStrings sample = aloneResponse I state := by
    rw [batchedResponse, aloneResponse, h.messageLog, hstops]
  refine ⟨by rw [hresponse], ?_, fun _ => by rw [hresponse], fun hfits hcut => ?_⟩
  · rw [huniform.reward, h.totalReward]
  · -- a response that is cut off leaves no room for an observation
    have hfull := huniform.cut _ _ hcut
    rw [h.messageLog] at hfull
    refine absurd ?_ hfits
    rw [Overflows, hresponse, aloneResponse, h.messageLog]
    omega

/-- A sample that goes on has the same stop strings in both functions again. -/
theorem Same.stops_next {sample : Sample Tok Info Stop R}
    {state : SampleState Tok Info Stop Acc} (h : Same I sample state)
    (hstops : SameStops hasStopStrings sample state)
    (huniform : Uniform I env hasStopStrings maxSeqLen)
    (hgoes : (batchedTurn I env hasStopStrings maxSeqLen sample).2 = false)
    (hgoes' : (aloneTurn I env maxSeqLen state).2 = false) :
    SameStops hasStopStrings (batchedTurn I env hasStopStrings maxSeqLen sample).1
      (aloneTurn I env maxSeqLen state).1 := by
  have hresponse := (h.turnAgrees hstops huniform).response
  have hnext := huniform.stops sample.taskName
    (toEnv (generateResponse I hasStopStrings sample).1.messageLog) sample.extraEnvInfo
  have hterminated := hgoes
  rw [batchedTurn_done, Bool.or_eq_false_iff] at hterminated
  have hgiven : (batchedOutput I env hasStopStrings sample).nextStopStrings.isSome =
      hasStopStrings := hnext hterminated.2
  rw [aloneTurn_done, Bool.or_eq_false_iff] at hgoes'
  have hbatched : (batchedTurn I env hasStopStrings maxSeqLen sample).1.stopStrings =
      if (batchedTurn I env hasStopStrings maxSeqLen sample).2 then sample.stopStrings
      else (batchedOutput I env hasStopStrings sample).nextStopStrings := rfl
  have halone : (aloneTurn I env maxSeqLen state).1.stopStrings =
      if !(aloneTurn I env maxSeqLen state).1.terminated &&
        !(aloneTurn I env maxSeqLen state).1.truncated then
        (aloneOutput I env state).nextStopStrings.or state.stopStrings else state.stopStrings := rfl
  rw [SameStops, hbatched, halone, hgoes, hgoes'.1, hgoes'.2, h.output_eq hresponse]
  cases hkey : hasStopStrings with
  | true =>
    rw [hkey] at hgiven
    obtain ⟨stop, hstop⟩ := Option.isSome_iff_exists.mp hgiven
    simp [hstop]
  | false =>
    rw [hkey] at hgiven
    rw [SameStops, hkey] at hstops
    have hnone := Option.isSome_eq_false_iff.mp hgiven
    simpa [Option.isNone_iff_eq_none.mp hnone] using hstops

/-- The functions agree for every number of turns if the environments keep the stop strings,
responses that are cut off fill the context and rewards are not rounded. -/
theorem Uniform.rolloutsAgree [Zero R] [Zero Acc] {inputBatch : InputBatch Tok Info Stop}
    (huniform : Uniform I env inputBatch.hasStopStrings maxSeqLen)
    (hgen : RespectsLimit I maxSeqLen) (hzero : I.tensor 0 = 0)
    (hready : ∀ row ∈ inputBatch.rows, Ready I env maxSeqLen (Sample.ofDatum (R := R) row))
    (n : ℕ) :
    RolloutsAgree (runMultiTurnRollout I maxSeqLen inputBatch n)
      (runAsyncMultiTurnRollout I maxSeqLen inputBatch n) := by
  rw [rolloutsAgree_iff_runs hgen hready]
  intro row hrow
  have hstart : SameStops inputBatch.hasStopStrings (Sample.ofDatum (R := R) row)
      (SampleState.ofDatum row : SampleState Tok Info Stop Acc) := by
    rw [SameStops]
    split
    · rfl
    · rename_i hkey
      exact (inputBatch.noStopStrings (by simpa using hkey) row hrow).symm
  refine (same_ofDatum hzero row).agree_iff.mpr (fun sample state hreach => ?_) n
  have hboth : Same I sample state ∧ SameStops inputBatch.hasStopStrings sample state := by
    induction hreach with
    | start => exact ⟨same_ofDatum hzero row, hstart⟩
    | next _ hgoes hgoes' ih =>
      have hturn := ih.1.turnAgrees ih.2 huniform
      exact ⟨ih.1.next hturn hgoes hgoes', ih.1.stops_next ih.2 huniform hgoes hgoes'⟩
  exact hboth.1.turnAgrees hboth.2 huniform

end Agree
end NemoRL.Experience
