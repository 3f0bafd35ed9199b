import NemoRL.Experience.RolloutsSpec
import NemoRL.Experience.SampleRollout
import NemoRL.Lib.Runs

/-!
# Stepping the environments of a batch

The samples of a batch are grouped by their tasks, and the environment of a task steps its group
as a whole. What it returns is collected group by group, field by field, and put back in the order
of the samples. An environment may leave out the list of stop strings or the list of answers.

An environment is any function of the messages and the infos of its group, which may raise.

## Main definitions

* `BatchReturn` — what an environment returns for a group.
* `TaskEnvironments.calculateRewards` — the step of a batch.
* `pointwise` — an environment that steps each sample of its group alone.

## Main results

* `calculateRewards_scatters` — every sample gets what its own environment returns for it.
-/

namespace NemoRL.Experience.TaskEnvironments

open Lib

/-! ## The step of a batch -/

/-- The reward of a sample: a number, or a row of a tensor. -/
inductive RewardEntry (F : Type)
  | number (reward : F)
  | tensor (reward : Reward F)
  deriving DecidableEq, Repr

/-- What an environment returns for a group. -/
structure BatchReturn (Obs Info Stop Ans F : Type) where
  observations : List Obs
  metadata : List (Option Info)
  nextStopStrings : Option (List (Option Stop))
  rewards : List (RewardEntry F)
  terminateds : List Bool
  answers : Option (List (Option Ans))

/-- An environment. -/
abbrev Env (Obs Info Stop Ans F : Type) :=
  List (List (String × String)) → List Info → Except PyError (BatchReturn Obs Info Stop Ans F)

/-- The stacked rewards of a batch, of shape `[B]` or `[B, K]`. -/
inductive RewardTensor (F : Type)
  | scalars (rewards : List F)
  | vectors (rewards : List (List F))
  deriving DecidableEq, Repr

/-- What is collected of the groups, in the order of the groups. -/
structure Collected (Obs Info Stop Ans F : Type) where
  rewards : List (RewardEntry F) := []
  observations : List Obs := []
  terminateds : List Bool := []
  nextStopStrings : List (Option Stop) := []
  metadata : List (Option Info) := []
  indicesOrder : List ℕ := []
  answers : List (Option Ans) := []

/-- What is returned for a batch. -/
structure StepResult (Obs Info Stop Ans F : Type) where
  observations : List Obs
  metadata : List (Option Info)
  nextStopStrings : List (Option Stop)
  rewards : RewardTensor F
  terminateds : List Bool
  answers : List (Option Ans)

variable {Tok Obs Info Stop Ans F Acc : Type}

/-- The item at an index. -/
def getItem {α : Type} (xs : List α) (i : ℕ) : Except PyError α :=
  match xs[i]? with
  | none => .error ⟨.indexError, "list index out of range"⟩
  | some x => .ok x

/-- Store the result of one sample: its index, and its place in the group. -/
def Collected.add (result : BatchReturn Obs Info Stop Ans F)
    (nextStopStrings : List (Option Stop)) (answers : List (Option Ans))
    (all : Collected Obs Info Stop Ans F) (p : ℕ × ℕ) :
    Except PyError (Collected Obs Info Stop Ans F) := do
  let reward ← getItem result.rewards p.2
  let observation ← getItem result.observations p.2
  let terminated ← getItem result.terminateds p.2
  let stop ← getItem nextStopStrings p.2
  let metadata ← getItem result.metadata p.2
  let answer ← getItem answers p.2
  return { rewards := all.rewards ++ [reward]
           observations := all.observations ++ [observation]
           terminateds := all.terminateds ++ [terminated]
           nextStopStrings := all.nextStopStrings ++ [stop]
           metadata := all.metadata ++ [metadata]
           indicesOrder := all.indicesOrder ++ [p.1]
           answers := all.answers ++ [answer] }

/-- Store the results of a group. -/
def Collected.addGroup (all : Collected Obs Info Stop Ans F)
    (group : List ℕ × BatchReturn Obs Info Stop Ans F) :
    Except PyError (Collected Obs Info Stop Ans F) :=
  let result := group.2
  let nextStopStrings :=
    result.nextStopStrings.getD (List.replicate result.rewards.length none)
  let answers := result.answers.getD (List.replicate result.rewards.length none)
  group.1.zipIdx.foldlM (Collected.add result nextStopStrings answers) all

/-- The number of an entry in a list of numbers. -/
def RewardEntry.toNumber : RewardEntry F → Except PyError F
  | number reward => .ok reward
  | tensor (.scalar reward) => .ok reward
  | tensor (.components [reward]) => .ok reward
  | tensor (.components _) =>
    .error ⟨.valueError, "only one element tensors can be converted to Python scalars"⟩

/-- The element of a tensor without dimensions, among others of this shape. -/
def RewardEntry.toScalar : RewardEntry F → Except PyError F
  | tensor (.scalar reward) => .ok reward
  | tensor (.components _) => .error ⟨.runtimeError, "stack expects each tensor to be equal size"⟩
  | number _ => .error ⟨.typeError, "expected Tensor as element of argument 0"⟩

/-- The elements of a tensor of one dimension, among others of its width. -/
def RewardEntry.toRow (width : ℕ) : RewardEntry F → Except PyError (List F)
  | tensor (.components rewards) =>
    if rewards.length = width then .ok rewards
    else .error ⟨.runtimeError, "stack expects each tensor to be equal size"⟩
  | tensor (.scalar _) => .error ⟨.runtimeError, "stack expects each tensor to be equal size"⟩
  | number _ => .error ⟨.typeError, "expected Tensor as element of argument 0"⟩

/-- Stack the rewards, tensors if the first one is a tensor. -/
def stackRewards (rewards : List (RewardEntry F)) : Except PyError (RewardTensor F) :=
  match rewards with
  | .tensor (.scalar _) :: _ => (rewards.mapM RewardEntry.toScalar).map .scalars
  | .tensor (.components first) :: _ =>
    (rewards.mapM (RewardEntry.toRow first.length)).map .vectors
  | _ => (rewards.mapM RewardEntry.toNumber).map .scalars

/-- Step the environment of a task for its group. What it raises is raised when it is waited
for. -/
def submit (taskToEnv : String → Option (Env Obs Info Stop Ans F))
    (samples : List (Sample Tok Info Stop Acc)) (group : String × List ℕ) :
    Except PyError (List ℕ × Except PyError (BatchReturn Obs Info Stop Ans F)) :=
  match taskToEnv group.1 with
  | none => .error ⟨.valueError, s!"No environment found for task type: {group.1}"⟩
  | some env =>
    let members := select samples group.2
    .ok (group.2, env (members.map fun sample => toEnv sample.messageLog)
      (members.map Sample.extraEnvInfo))

/-- Wait for the result of a group. -/
def await (future : List ℕ × Except PyError (BatchReturn Obs Info Stop Ans F)) :
    Except PyError (List ℕ × BatchReturn Obs Info Stop Ans F) :=
  future.2.map fun result => (future.1, result)

/-- Step the environment of each task and put the results in the order of the samples. -/
def calculateRewards (taskToEnv : String → Option (Env Obs Info Stop Ans F))
    (samples : List (Sample Tok Info Stop Acc)) :
    Except PyError (StepResult Obs Info Stop Ans F) := do
  let futures ← (taskGroups samples).mapM (submit taskToEnv samples)
  let results ← futures.mapM await
  let all ← results.foldlM Collected.addGroup {}
  let sortedIndices := sortOn (fun k => all.indicesOrder.getD k 0)
    (List.range all.indicesOrder.length)
  let rewards ← stackRewards (select all.rewards sortedIndices)
  return { observations := select all.observations sortedIndices
           metadata := select all.metadata sortedIndices
           nextStopStrings := select all.nextStopStrings sortedIndices
           rewards := rewards
           terminateds := select all.terminateds sortedIndices
           answers := select all.answers sortedIndices }

/-! ## Environments that step each sample alone -/

/-- What an environment returns for one sample. -/
structure SampleReturn (Obs Info Stop Ans F : Type) where
  observation : Obs
  metadata : Option Info
  nextStopStrings : Option Stop
  reward : RewardEntry F
  terminated : Bool
  answer : Option Ans
  deriving DecidableEq, Repr

/-- A function of one sample, and whether its environment returns stop strings and answers. -/
structure SampleStep (Obs Info Stop Ans F : Type) where
  step : List (String × String) → Info → SampleReturn Obs Info Stop Ans F
  givesStopStrings : Bool
  givesAnswers : Bool

/-- The results of single samples as the result of a group. -/
def SampleStep.collect (f : SampleStep Obs Info Stop Ans F)
    (outputs : List (SampleReturn Obs Info Stop Ans F)) : BatchReturn Obs Info Stop Ans F where
  observations := outputs.map SampleReturn.observation
  metadata := outputs.map SampleReturn.metadata
  nextStopStrings :=
    if f.givesStopStrings then some (outputs.map SampleReturn.nextStopStrings) else none
  rewards := outputs.map SampleReturn.reward
  terminateds := outputs.map SampleReturn.terminated
  answers := if f.givesAnswers then some (outputs.map SampleReturn.answer) else none

/-- An environment that applies a function to each sample of its group. -/
def pointwise (f : SampleStep Obs Info Stop Ans F) : Env Obs Info Stop Ans F :=
  fun messages infos => .ok (f.collect (List.zipWith f.step messages infos))

/-- What a function returns for a sample. A list that is left out stands for nothing. -/
def SampleStep.outcome (f : SampleStep Obs Info Stop Ans F) (sample : Sample Tok Info Stop Acc) :
    SampleReturn Obs Info Stop Ans F :=
  let output := f.step (toEnv sample.messageLog) sample.extraEnvInfo
  { output with
    nextStopStrings := if f.givesStopStrings then output.nextStopStrings else none
    answer := if f.givesAnswers then output.answer else none }

/-- The kind of a reward: a number, or a tensor of some width. -/
def RewardEntry.kind : RewardEntry F → Option (Option ℕ)
  | number _ => none
  | tensor reward => some reward.numComponents

/-- The reward of an entry, a number as a tensor without dimensions. -/
def RewardEntry.value : RewardEntry F → Reward F
  | number reward => .scalar reward
  | tensor reward => reward

/-- The rewards of the samples. -/
def RewardTensor.rows : RewardTensor F → List (Reward F)
  | scalars rewards => rewards.map .scalar
  | vectors rewards => rewards.map .components

/-! ## Putting back in order -/

/-- What was collected in some order of the indices, sorted by them. -/
theorem select_sortOn {α : Type} {order : List ℕ} {n : ℕ} (h : order.Perm (List.range n))
    (g : ℕ → α) :
    select (order.map g) (sortOn (fun k => order.getD k 0) (List.range order.length)) =
      (List.range n).map g := by
  obtain ⟨ks, hks⟩ : ∃ ks, ks = sortOn (fun k => order.getD k 0) (List.range order.length) :=
    ⟨_, rfl⟩
  have hperm : ks.Perm (List.range order.length) := hks ▸ sortOn_perm ..
  have hlt : ∀ k ∈ ks, k < order.length := fun k hk => List.mem_range.mp (hperm.mem_iff.mp hk)
  have hkeys : select order ks = List.range n := by
    have hsorted : (select order ks).Pairwise (· ≤ ·) := by
      rw [select_eq_map_getD hlt 0, List.pairwise_map, hks]
      exact pairwise_sortOn ..
    exact ((select_perm hperm).trans h).eq_of_pairwise' hsorted List.pairwise_le_range
  rw [← hks, select_map, hkeys]

/-! ## Collecting the results -/

section Collect
variable {f : SampleStep Obs Info Stop Ans F}

/-- The results of some samples, in some order. -/
def collected (out : ℕ → SampleReturn Obs Info Stop Ans F) (order : List ℕ) :
    Collected Obs Info Stop Ans F where
  rewards := order.map fun i => (out i).reward
  observations := order.map fun i => (out i).observation
  terminateds := order.map fun i => (out i).terminated
  nextStopStrings := order.map fun i => (out i).nextStopStrings
  metadata := order.map fun i => (out i).metadata
  indicesOrder := order
  answers := order.map fun i => (out i).answer

theorem getItem_map {α : Type} (g : ℕ → α) {before rest : List ℕ} {i : ℕ} :
    getItem ((before ++ i :: rest).map g) before.length = .ok (g i) := by
  have hget : ((before ++ i :: rest).map g)[before.length]? = some (g i) := by
    rw [List.getElem?_map, List.getElem?_append_right le_rfl, Nat.sub_self]
    rfl
  rw [getItem, hget]

/-- Storing the results of the samples of a group one after the other. -/
theorem foldlM_add {out : ℕ → SampleReturn Obs Info Stop Ans F} {indices : List ℕ}
    {result : BatchReturn Obs Info Stop Ans F} {stops : List (Option Stop)}
    {answers : List (Option Ans)}
    (hrewards : result.rewards = indices.map fun i => (out i).reward)
    (hobservations : result.observations = indices.map fun i => (out i).observation)
    (hterminateds : result.terminateds = indices.map fun i => (out i).terminated)
    (hmetadata : result.metadata = indices.map fun i => (out i).metadata)
    (hstops : stops = indices.map fun i => (out i).nextStopStrings)
    (hanswers : answers = indices.map fun i => (out i).answer)
    (order before rest : List ℕ) (hindices : indices = before ++ rest) :
    (rest.zipIdx before.length).foldlM (Collected.add result stops answers)
      (collected out (order ++ before)) = .ok (collected out (order ++ indices)) := by
  induction rest generalizing before with
  | nil =>
    rw [List.append_nil] at hindices
    rw [hindices]
    rfl
  | cons i rest ih =>
    have hadd : Collected.add result stops answers (collected out (order ++ before))
        (i, before.length) = .ok (collected out (order ++ (before ++ [i]))) := by
      simp only [Collected.add, hrewards, hobservations, hterminateds, hmetadata, hstops, hanswers,
        hindices, getItem_map, bind, Except.bind, pure, Except.pure]
      simp [collected]
    rw [List.zipIdx_cons, List.foldlM_cons, hadd]
    have hrest := ih (before ++ [i]) (by rw [hindices, List.append_assoc]; rfl)
    rw [List.length_append, List.length_singleton] at hrest
    exact hrest

/-- What a function returns for a sample, with the lists that its environment leaves out. -/
def SampleStep.raw (f : SampleStep Obs Info Stop Ans F) (sample : Sample Tok Info Stop Acc) :
    SampleReturn Obs Info Stop Ans F :=
  f.step (toEnv sample.messageLog) sample.extraEnvInfo

/-- Storing the results of a group whose samples are all stepped by one function. -/
theorem addGroup_collect {out : ℕ → SampleReturn Obs Info Stop Ans F}
    {sampleAt : ℕ → Sample Tok Info Stop Acc} {indices : List ℕ}
    (hout : ∀ i ∈ indices, out i = f.outcome (sampleAt i)) (order : List ℕ) :
    Collected.addGroup (collected out order)
      (indices, f.collect (indices.map fun i => f.raw (sampleAt i))) =
        .ok (collected out (order ++ indices)) := by
  have hfield : ∀ {α : Type} (field : SampleReturn Obs Info Stop Ans F → α),
      (∀ i ∈ indices, field (f.raw (sampleAt i)) = field (f.outcome (sampleAt i))) →
      (indices.map fun i => f.raw (sampleAt i)).map field = indices.map fun i => field (out i) := by
    intro α field h
    rw [List.map_map]
    refine List.map_congr_left fun i hi => ?_
    rw [Function.comp_apply, h i hi, hout i hi]
  have hnone : ∀ {α : Type} (field : SampleReturn Obs Info Stop Ans F → Option α),
      (∀ i ∈ indices, field (f.outcome (sampleAt i)) = none) →
      List.replicate indices.length none = indices.map fun i => field (out i) := by
    intro α field h
    rw [eq_comm, List.eq_replicate_iff]
    refine ⟨List.length_map .., fun x hx => ?_⟩
    obtain ⟨i, hi, rfl⟩ := List.mem_map.mp hx
    rw [hout i hi, h i hi]
  obtain ⟨result, hresult⟩ : ∃ result, result =
    f.collect (indices.map fun i => f.raw (sampleAt i)) := ⟨_, rfl⟩
  have hlength : result.rewards.length = indices.length := by simp [hresult, SampleStep.collect]
  have hstops : result.nextStopStrings.getD (List.replicate result.rewards.length none) =
      indices.map fun i => (out i).nextStopStrings := by
    rw [hlength, hresult, SampleStep.collect]
    cases hgives : f.givesStopStrings with
    | false => exact hnone _ fun i _ => by rw [SampleStep.outcome, hgives]; rfl
    | true => exact hfield _ fun i _ => by rw [SampleStep.outcome, hgives]; rfl
  have hanswers : result.answers.getD (List.replicate result.rewards.length none) =
      indices.map fun i => (out i).answer := by
    rw [hlength, hresult, SampleStep.collect]
    cases hgives : f.givesAnswers with
    | false => exact hnone _ fun i _ => by rw [SampleStep.outcome, hgives]; rfl
    | true => exact hfield _ fun i _ => by rw [SampleStep.outcome, hgives]; rfl
  have hrewards : result.rewards = indices.map fun i => (out i).reward :=
    hresult ▸ hfield _ fun _ _ => rfl
  have hadd := foldlM_add hrewards
    (hresult ▸ hfield _ fun _ _ => rfl) (hresult ▸ hfield _ fun _ _ => rfl)
    (hresult ▸ hfield _ fun _ _ => rfl) hstops hanswers order [] indices rfl
  rw [List.append_nil, List.length_nil] at hadd
  rw [← hresult, Collected.addGroup]
  exact hadd

/-- Storing the results of all groups. -/
theorem foldlM_addGroup (out : ℕ → SampleReturn Obs Info Stop Ans F)
    (sampleAt : ℕ → Sample Tok Info Stop Acc) (f : String → SampleStep Obs Info Stop Ans F)
    {groups : List (String × List ℕ)}
    (hout : ∀ group ∈ groups, ∀ i ∈ group.2, out i = (f group.1).outcome (sampleAt i))
    (order : List ℕ) :
    (groups.map fun group => (group.2, (f group.1).collect
      (group.2.map fun i => (f group.1).raw (sampleAt i)))).foldlM Collected.addGroup
        (collected out order) = .ok (collected out (order ++ groups.flatMap Prod.snd)) := by
  induction groups generalizing order with
  | nil =>
    rw [List.flatMap_nil, List.append_nil]
    rfl
  | cons group groups ih =>
    rw [List.map_cons, List.foldlM_cons, addGroup_collect (hout group List.mem_cons_self),
      List.flatMap_cons, ← List.append_assoc]
    exact ih (fun group' hgroup' => hout group' (List.mem_cons_of_mem group hgroup')) _

end Collect

/-! ## Stacking the rewards -/

theorem exists_rows {α : Type} (read : RewardEntry F → Except PyError α) (row : α → Reward F)
    {rewards : List (RewardEntry F)}
    (h : ∀ r ∈ rewards, ∃ x, read r = .ok x ∧ row x = r.value) :
    ∃ xs, rewards.mapM read = .ok xs ∧ xs.map row = rewards.map RewardEntry.value := by
  obtain ⟨xs, hxs, hall⟩ := exists_mapM_forall₂ h
  refine ⟨xs, hxs, ?_⟩
  clear hxs h
  induction hall with
  | nil => rfl
  | cons hrow _ ih => rw [List.map_cons, List.map_cons, hrow, ih]

/-- Rewards of one kind are stacked row by row. -/
theorem stackRewards_of_kind {rewards : List (RewardEntry F)}
    (h : ∀ r ∈ rewards, ∀ r' ∈ rewards, r.kind = r'.kind) :
    ∃ stacked, stackRewards rewards = .ok stacked ∧
      stacked.rows = rewards.map RewardEntry.value := by
  cases rewards with
  | nil => exact ⟨.scalars [], rfl, rfl⟩
  | cons first rest =>
    have hkind : ∀ r ∈ first :: rest, r.kind = first.kind :=
      fun r hr => h r hr first List.mem_cons_self
    cases first with
    | number reward =>
      have hread : ∀ r ∈ .number reward :: rest, ∃ x, r.toNumber = .ok x ∧ .scalar x = r.value := by
        intro r hr
        cases r with
        | number x => exact ⟨x, rfl, rfl⟩
        | tensor r => cases hkind _ hr
      obtain ⟨xs, hxs, hrows⟩ := exists_rows RewardEntry.toNumber Reward.scalar hread
      have hstack : stackRewards (.number reward :: rest) =
          ((RewardEntry.number reward :: rest).mapM RewardEntry.toNumber).map .scalars := rfl
      exact ⟨.scalars xs, by rw [hstack, hxs]; rfl, hrows⟩
    | tensor first =>
      cases first with
      | scalar reward =>
        have hread : ∀ r ∈ .tensor (.scalar reward) :: rest,
            ∃ x, r.toScalar = .ok x ∧ .scalar x = r.value := by
          intro r hr
          cases r with
          | number x => cases hkind _ hr
          | tensor r =>
            cases r with
            | scalar x => exact ⟨x, rfl, rfl⟩
            | components xs => cases hkind _ hr
        obtain ⟨xs, hxs, hrows⟩ := exists_rows RewardEntry.toScalar Reward.scalar hread
        exact ⟨.scalars xs, by rw [stackRewards, hxs]; rfl, hrows⟩
      | components first =>
        have hread : ∀ r ∈ .tensor (.components first) :: rest,
            ∃ xs, r.toRow first.length = .ok xs ∧ .components xs = r.value := by
          intro r hr
          cases r with
          | number x => cases hkind _ hr
          | tensor r =>
            cases r with
            | scalar x => cases hkind _ hr
            | components xs =>
              have hwidth : xs.length = first.length := by
                simpa [RewardEntry.kind, Reward.numComponents] using hkind _ hr
              exact ⟨xs, if_pos hwidth, rfl⟩
        obtain ⟨xs, hxs, hrows⟩ :=
          exists_rows (RewardEntry.toRow first.length) Reward.components hread
        exact ⟨.vectors xs, by rw [stackRewards, hxs]; rfl, hrows⟩

/-! ## The batch -/

section Batch
variable {samples : List (Sample Tok Info Stop Acc)}
  {taskToEnv : String → Option (Env Obs Info Stop Ans F)}
  {f : String → SampleStep Obs Info Stop Ans F}

/-- The environment of a task is given the samples of the task. -/
theorem submit_eq {indices : List ℕ} {groups : List (String × List ℕ)}
    (hgroups : Grouped samples indices groups)
    (hserved : ∀ sample ∈ samples, taskToEnv sample.taskName = some (pointwise (f sample.taskName)))
    (d : Sample Tok Info Stop Acc) {group : String × List ℕ} (hgroup : group ∈ groups) :
    submit taskToEnv samples group = .ok (group.2, .ok ((f group.1).collect
      (group.2.map fun i => (f group.1).raw (samples.getD i d)))) := by
  have htask := hgroups.task group hgroup
  obtain ⟨j, hj⟩ := List.exists_mem_of_ne_nil _ (hgroups.nonempty group hgroup)
  obtain ⟨sample, hsample, hname⟩ := htask j hj
  have henv : taskToEnv group.1 = some (pointwise (f group.1)) := by
    have hsome := hserved sample (List.mem_of_getElem? hsample)
    rwa [hname] at hsome
  have hlt : ∀ i ∈ group.2, i < samples.length := by
    intro i hi
    obtain ⟨s, hs, -⟩ := htask i hi
    exact (List.getElem?_eq_some_iff.mp hs).1
  rw [submit, henv]
  dsimp only
  rw [select_eq_map_getD hlt d, pointwise, List.map_map, List.map_map, List.zipWith_map]
  rw [List.zipWith_self]
  rfl

/-- What mapping raises, it raises at an element. -/
theorem exists_of_mapM_error {α β ε : Type} {g : α → Except ε β} {l : List α} {e : ε}
    (h : l.mapM g = .error e) : ∃ a ∈ l, g a = .error e := by
  induction l with
  | nil => cases h
  | cons a l ih =>
    rw [List.mapM_cons] at h
    cases hga : g a with
    | error e' =>
      rw [hga] at h
      cases h
      exact ⟨a, List.mem_cons_self, hga⟩
    | ok b =>
      rw [hga] at h
      cases hrest : l.mapM g with
      | error e' =>
        obtain ⟨a', ha', hga'⟩ := ih (by
          rw [hrest] at h ⊢
          cases h
          rfl)
        exact ⟨a', List.mem_cons_of_mem a ha', hga'⟩
      | ok bs =>
        rw [hrest] at h
        cases h

/-- A task without an environment is a `ValueError`. -/
theorem submit_error {group : String × List ℕ} {e : PyError}
    (h : submit taskToEnv samples group = .error e) : e.kind = .valueError := by
  rw [submit] at h
  split at h
  · cases h
    rfl
  · cases h

/-- The batch when every task has an environment that steps each sample alone. -/
theorem calculateRewards_eq
    (hserved : ∀ sample ∈ samples, taskToEnv sample.taskName = some (pointwise (f sample.taskName)))
    (hkind : ∀ s ∈ samples, ∀ s' ∈ samples, ((f s.taskName).outcome s).reward.kind =
      ((f s'.taskName).outcome s').reward.kind) :
    ∃ rewards, calculateRewards taskToEnv samples = .ok
        { observations := samples.map fun s => ((f s.taskName).outcome s).observation
          metadata := samples.map fun s => ((f s.taskName).outcome s).metadata
          nextStopStrings := samples.map fun s => ((f s.taskName).outcome s).nextStopStrings
          rewards := rewards
          terminateds := samples.map fun s => ((f s.taskName).outcome s).terminated
          answers := samples.map fun s => ((f s.taskName).outcome s).answer } ∧
      rewards.rows = samples.map fun s => ((f s.taskName).outcome s).reward.value := by
  have hgroups := grouped_taskGroups samples
  cases hsamples : samples with
  | nil =>
    exact ⟨.scalars [], rfl, rfl⟩
  | cons first rest =>
    rw [← hsamples]
    obtain ⟨out, hout⟩ : ∃ out : ℕ → SampleReturn Obs Info Stop Ans F, out = fun i =>
      (f (samples.getD i first).taskName).outcome (samples.getD i first) := ⟨_, rfl⟩
    have hfutures : (taskGroups samples).mapM (submit taskToEnv samples) =
        .ok ((taskGroups samples).map fun group => (group.2, .ok ((f group.1).collect
          (group.2.map fun i => (f group.1).raw (samples.getD i first))))) :=
      mapM_of_forall fun group hgroup => submit_eq hgroups hserved first hgroup
    have hresults : ((taskGroups samples).map fun group => (group.2,
        (.ok ((f group.1).collect (group.2.map fun i => (f group.1).raw (samples.getD i first))) :
          Except PyError (BatchReturn Obs Info Stop Ans F)))).mapM await =
        .ok ((taskGroups samples).map fun group => (group.2, (f group.1).collect
          (group.2.map fun i => (f group.1).raw (samples.getD i first)))) := by
      rw [List.mapM_map]
      exact mapM_of_forall fun group _ => rfl
    have hmember : ∀ group ∈ taskGroups samples, ∀ i ∈ group.2,
        out i = (f group.1).outcome (samples.getD i first) := by
      intro group hgroup i hi
      obtain ⟨s, hs, hname⟩ := hgroups.task group hgroup i hi
      have hget : samples.getD i first = s := by
        rw [List.getD_eq_getElem?_getD, hs, Option.getD_some]
      rw [hout, ← hname]
      dsimp only
      rw [hget]
    have hall := foldlM_addGroup out (fun i => samples.getD i first) f hmember []
    rw [List.nil_append] at hall
    have hperm := hgroups.perm.trans (List.reverse_perm _)
    obtain ⟨order, horder⟩ : ∃ order, order = (taskGroups samples).flatMap Prod.snd := ⟨_, rfl⟩
    rw [← horder] at hall hperm
    -- a field that was collected in the order of the groups, in the order of the samples
    have hgather : ∀ {α : Type} (field : SampleReturn Obs Info Stop Ans F → α),
        select (order.map fun i => field (out i))
            (sortOn (fun k => order.getD k 0) (List.range order.length)) =
          samples.map fun s => field ((f s.taskName).outcome s) := by
      intro α field
      have hselect : (List.range samples.length).map (fun i => samples.getD i first) = samples := by
        rw [← select_eq_map_getD (fun i hi => List.mem_range.mp hi), select_range]
      rw [select_sortOn hperm fun i => field (out i)]
      conv_rhs => rw [← hselect, List.map_map]
      rw [hout]
      rfl
    have hkinds : ∀ r ∈ samples.map fun s => ((f s.taskName).outcome s).reward,
        ∀ r' ∈ samples.map fun s => ((f s.taskName).outcome s).reward, r.kind = r'.kind := by
      intro r hr r' hr'
      obtain ⟨s, hs, rfl⟩ := List.mem_map.mp hr
      obtain ⟨s', hs', rfl⟩ := List.mem_map.mp hr'
      exact hkind s hs s' hs'
    obtain ⟨rewards, hstack, hrows⟩ := stackRewards_of_kind hkinds
    refine ⟨rewards, ?_, by rw [hrows, List.map_map]; rfl⟩
    have hempty : (collected out [] : Collected Obs Info Stop Ans F) = {} := rfl
    rw [hempty] at hall
    simp only [calculateRewards, bind, Except.bind, pure, Except.pure, hfutures, hresults, hall]
    simp only [collected, hgather, hstack]

/-- Every sample gets what the environment of its task returns for it, field by field, and a task
without an environment raises. -/
theorem calculateRewards_scatters (taskToEnv : String → Option (Env Obs Info Stop Ans F))
    (f : String → SampleStep Obs Info Stop Ans F)
    (hpointwise : ∀ taskName env, taskToEnv taskName = some env → env = pointwise (f taskName))
    (samples : List (Sample Tok Info Stop Acc))
    (hkind : ∀ s ∈ samples, ∀ s' ∈ samples, ((f s.taskName).outcome s).reward.kind =
      ((f s'.taskName).outcome s').reward.kind) :
    ((∀ s ∈ samples, taskToEnv s.taskName ≠ none) →
      ∃ rewards, calculateRewards taskToEnv samples = .ok
          { observations := samples.map fun s => ((f s.taskName).outcome s).observation
            metadata := samples.map fun s => ((f s.taskName).outcome s).metadata
            nextStopStrings := samples.map fun s => ((f s.taskName).outcome s).nextStopStrings
            rewards := rewards
            terminateds := samples.map fun s => ((f s.taskName).outcome s).terminated
            answers := samples.map fun s => ((f s.taskName).outcome s).answer } ∧
        rewards.rows = samples.map fun s => ((f s.taskName).outcome s).reward.value) ∧
      ((∃ s ∈ samples, taskToEnv s.taskName = none) →
        ∃ message, calculateRewards taskToEnv samples = .error ⟨.valueError, message⟩) := by
  constructor
  · intro hknown
    refine calculateRewards_eq (fun s hs => ?_) hkind
    obtain ⟨env, henv⟩ := Option.ne_none_iff_exists'.mp (hknown s hs)
    rw [henv, hpointwise s.taskName env henv]
  · rintro ⟨s, hs, hunknown⟩
    have hgroups := grouped_taskGroups samples
    obtain ⟨i, hi⟩ := List.mem_iff_getElem?.mp hs
    have hmem : i ∈ (taskGroups samples).flatMap Prod.snd := by
      rw [hgroups.perm.mem_iff, List.mem_reverse, List.mem_range]
      exact (List.getElem?_eq_some_iff.mp hi).1
    obtain ⟨group, hgroup, higroup⟩ := List.mem_flatMap.mp hmem
    obtain ⟨s', hs', hname⟩ := hgroups.task group hgroup i higroup
    rw [hi, Option.some.injEq] at hs'
    subst hs'
    have hraises : ∃ e, submit taskToEnv samples group = .error e := by
      rw [submit, ← hname, hunknown]
      exact ⟨_, rfl⟩
    obtain ⟨⟨kind, message⟩, he⟩ := mapM_raises hgroup hraises
    obtain ⟨group', -, herror⟩ := exists_of_mapM_error he
    obtain rfl : kind = .valueError := submit_error herror
    refine ⟨message, ?_⟩
    rw [calculateRewards, he]
    rfl

end Batch

/-- Two tasks in turn, the first without answers and the second without stop strings. -/
theorem calculateRewards_scatters_interleaved :
    let math : SampleStep ℕ ℕ String String ℚ :=
      ⟨fun messages info => ⟨messages.length, none, some "</s>", .tensor (.scalar info), true,
        some "4"⟩, true, false⟩
    let game : SampleStep ℕ ℕ String String ℚ :=
      ⟨fun messages info => ⟨messages.length + 10, some (info + 1), some "<end>",
        .tensor (.scalar (-info)), false, some "up"⟩, false, true⟩
    let sample := fun (info : ℕ) (taskName : String) => (⟨[⟨"user", "hi", [1]⟩], info, taskName,
      none, (), false⟩ : Sample ℕ ℕ String Unit)
    ∃ rewards, calculateRewards
        (fun taskName => if taskName = "math" then some (pointwise math)
          else if taskName = "game" then some (pointwise game) else none)
        [sample 7 "math", sample 8 "game", sample 9 "math"] =
      .ok ⟨[1, 11, 1], [none, some 9, none], [some "</s>", none, some "</s>"], rewards,
        [true, false, true], [none, some "up", none]⟩ ∧
      rewards.rows = [.scalar 7, .scalar (-8), .scalar 9] := by
  intro math game sample
  have hpointwise : ∀ taskName env,
      (if taskName = "math" then some (pointwise math)
        else if taskName = "game" then some (pointwise game) else none) = some env →
      env = pointwise (if taskName = "math" then math else game) := by
    intro taskName env h
    split_ifs at h with hmath hgame
    · rw [if_pos hmath]
      exact (Option.some.inj h).symm
    · rw [if_neg hmath]
      exact (Option.some.inj h).symm
  exact (calculateRewards_scatters _ (fun taskName => if taskName = "math" then math else game)
    hpointwise [sample 7 "math", sample 8 "game", sample 9 "math"] (by decide)).1 (by simp [sample])

end NemoRL.Experience.TaskEnvironments
