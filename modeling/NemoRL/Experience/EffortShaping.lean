import Mathlib
import NemoRL.Environments.NemoGym
import NemoRL.Lib.Except

/-!
# Shaping rewards by effort

A prompt that asks for low effort is rewarded for a short response. The rewards of a batch of
NeMo-Gym results are shaped first, and then the samples without messages are masked. Such a
sample stands for a rollout that failed.

Shaping reads the last message of every result, before it looks at any prompt. A single failed
rollout makes it raise for the whole batch, so the mask is never reached.

Rewards and weights are numbers of an ordered field.

## Main definitions

* `applyEffortShaping` — the shaped results with their metrics.
* `applyEmptyMessageLogMask` — the loss multipliers without the failed rollouts.
* `ShapedAndMasked` — what both do to a batch as documented.

## Main results

* `shapeAndMask_iff` — a batch is shaped and masked as documented exactly when shaping is
  disabled, or no rollout failed and nothing is divided by zero.
-/

namespace NemoRL.Experience.EffortShaping

open Environments Lib

/-! ## The configuration and the prompts -/

/-- How rewards are shaped. A prompt asks for low effort if it contains `lowString`. -/
structure EffortLevelsConfig (K : Type) [Zero K] [One K] where
  lowWeight : K := 0
  lowPenalty : K := 1
  lowUb : ℤ := 64000
  lowString : String := ""

/-- The content of a message of a prompt: a text, or parts, where a part may be a text. -/
inductive PromptContent
  | text (text : String)
  | parts (parts : List (Option String))
  deriving DecidableEq, Repr

/-- Whether a content contains a text. Parts contain the texts that they are equal to. -/
def PromptContent.contains (content : PromptContent) (pattern : String) : Bool :=
  match content with
  | .text content => hasText content pattern
  | .parts content => decide (some pattern ∈ content)

/-- A message of a prompt. -/
structure PromptMessage where
  role : Option String
  content : Option PromptContent
  deriving DecidableEq, Repr

/-- A row: the messages of its prompt. -/
structure NemoGymRow where
  input : List PromptMessage
  deriving DecidableEq, Repr

/-- The content of a message of the user. -/
def PromptMessage.userContent (message : PromptMessage) : Option PromptContent :=
  if message.role = some "user" then message.content else none

/-- The content of the last message of the user that has one. -/
def NemoGymRow.prompt (row : NemoGymRow) : PromptContent :=
  (row.input.reverse.findSome? PromptMessage.userContent).getD (.text "")

variable {Tok Lp Route K : Type}

/-! ## Shaping -/

/-- What is tracked of the samples. -/
structure EffortShapingMetrics (K : Type) where
  lengthRewardsLow : List K := []
  rewardsLow : List K := []
  lowLengths : List ℕ := []
  highLengths : List ℕ := []
  deriving DecidableEq, Repr

/-- The results that are shaped so far, and their metrics. -/
structure Shaped (Tok Lp Route K : Type) where
  results : List (NemoRlResult Tok Lp Route K) := []
  metrics : EffortShapingMetrics K := {}
  deriving DecidableEq, Repr

/-- The item at an index. -/
def getItem {α : Type} (xs : List α) (i : ℕ) : Except PyError α :=
  match xs[i]? with
  | none => .error ⟨.indexError, "list index out of range"⟩
  | some x => .ok x

/-- The length of the response: the tokens of the last message if it is the assistant's. -/
def responseLength (result : NemoRlResult Tok Lp Route K) : Except PyError ℕ :=
  match result.messageLog.getLast? with
  | none => .error ⟨.indexError, "list index out of range"⟩
  | some message => .ok (if message.role = "assistant" then message.tokenIds.length else 0)

/-- The quotient of two integers. -/
def trueDiv [Field K] (length : ℕ) (ub : ℤ) : Except PyError K :=
  if ub = 0 then .error ⟨.zeroDivisionError, "division by zero"⟩ else .ok (length / ub)

/-- A result with another reward. -/
def withReward (result : NemoRlResult Tok Lp Route K) (reward : K) :
    NemoRlResult Tok Lp Route K :=
  { result with fullResult := { result.fullResult with reward := reward } }

/-- Whether the configuration disables shaping. -/
def EffortLevelsConfig.disabled [Zero K] [One K] [LinearOrder K]
    (effortConfig : EffortLevelsConfig K) : Bool :=
  decide (effortConfig.lowWeight ≤ 0) || decide (effortConfig.lowString = "")

section Code
variable [Field K] [LinearOrder K]

/-- Shape the reward of a result. -/
def shapeResult (effortConfig : EffortLevelsConfig K) (rows : List NemoGymRow)
    (lengths : List ℕ) (origRewards : List K) (shaped : Shaped Tok Lp Route K)
    (p : NemoRlResult Tok Lp Route K × ℕ) : Except PyError (Shaped Tok Lp Route K) := do
  let row ← getItem rows p.2
  let length ← getItem lengths p.2
  let metrics := shaped.metrics
  if row.prompt.contains effortConfig.lowString then
    let ratio : K ← trueDiv length effortConfig.lowUb
    let lengthReward := min 1 (effortConfig.lowWeight * (1 - ratio))
    let origReward ← getItem origRewards p.2
    let newReward := origReward + origReward * max lengthReward 0 +
      effortConfig.lowPenalty * min lengthReward 0
    return {
      results := shaped.results ++ [withReward p.1 newReward]
      metrics := { metrics with
        lengthRewardsLow := metrics.lengthRewardsLow ++ [lengthReward]
        rewardsLow := metrics.rewardsLow ++ [newReward]
        lowLengths := metrics.lowLengths ++ [length] } }
  else
    return {
      results := shaped.results ++ [p.1]
      metrics := { metrics with highLengths := metrics.highLengths ++ [length] } }

/-- Shape the rewards of results whose prompts ask for low effort. -/
def applyEffortShaping (results : List (NemoRlResult Tok Lp Route K)) (rows : List NemoGymRow)
    (effortConfig : Option (EffortLevelsConfig K)) : Except PyError (Shaped Tok Lp Route K) :=
  match effortConfig with
  | none => .ok { results := results }
  | some effortConfig =>
    if effortConfig.disabled then .ok { results := results }
    else do
      let lengths ← results.mapM responseLength
      let origRewards := results.map fun r => r.fullResult.reward
      results.zipIdx.foldlM (shapeResult effortConfig rows lengths origRewards) {}

/-! ## Masking -/

/-- Mask the loss of a sample. -/
def maskSample (lm : List K) (i : ℕ) : Except PyError (List K) :=
  if i < lm.length then .ok (lm.set i 0)
  else .error ⟨.indexError,
    s!"index {i} is out of bounds for dimension 0 with size {lm.length}"⟩

/-- Mask the loss of the samples without messages. -/
def applyEmptyMessageLogMask (results : List (NemoRlResult Tok Lp Route K))
    (lossMultiplier : List K) : Except PyError (List K) :=
  let masked := (results.zipIdx.filter fun p => p.1.messageLog.isEmpty).map Prod.snd
  masked.foldlM maskSample lossMultiplier

/-- The samples of a batch behind shaping and masking. -/
structure Postprocessed (Tok Lp Route K : Type) where
  shaped : Shaped Tok Lp Route K
  lossMultiplier : List K
  deriving DecidableEq, Repr

/-- Shape the rewards and mask the failed rollouts. -/
def shapeAndMask (results : List (NemoRlResult Tok Lp Route K)) (rows : List NemoGymRow)
    (effortConfig : Option (EffortLevelsConfig K)) (lossMultiplier : List K) :
    Except PyError (Postprocessed Tok Lp Route K) := do
  let shaped ← applyEffortShaping results rows effortConfig
  let lossMultiplier ← applyEmptyMessageLogMask shaped.results lossMultiplier
  return ⟨shaped, lossMultiplier⟩

/-! ## The documented rewards -/

/-- The tokens of the response that ends a conversation. -/
def responseTokens (result : NemoRlResult Tok Lp Route K) : ℕ :=
  match result.messageLog.getLast? with
  | none => 0
  | some message => if message.role = "assistant" then message.tokenIds.length else 0

/-- The reward of a response to a prompt that asks for low effort. -/
def EffortLevelsConfig.newReward (effortConfig : EffortLevelsConfig K) (origReward : K)
    (responseLen : ℕ) : K :=
  let lengthReward := min 1 (effortConfig.lowWeight * (1 - responseLen / effortConfig.lowUb))
  origReward + origReward * max lengthReward 0 + effortConfig.lowPenalty * min lengthReward 0

/-- The reward that is documented for a result. -/
def documentedReward (effortConfig : Option (EffortLevelsConfig K)) (row : NemoGymRow)
    (result : NemoRlResult Tok Lp Route K) : K :=
  match effortConfig with
  | none => result.fullResult.reward
  | some effortConfig =>
    if !effortConfig.disabled && row.prompt.contains effortConfig.lowString then
      effortConfig.newReward result.fullResult.reward (responseTokens result)
    else result.fullResult.reward

/-- A batch is shaped and masked as documented: a sample without messages has no loss, and
every other one keeps its multiplier and gets the reward of its own response and prompt. -/
structure ShapedAndMasked (results : List (NemoRlResult Tok Lp Route K))
    (rows : List NemoGymRow) (effortConfig : Option (EffortLevelsConfig K))
    (lossMultiplier : List K) (out : Postprocessed Tok Lp Route K) : Prop where
  length_results : out.shaped.results.length = results.length
  length_lossMultiplier : out.lossMultiplier.length = lossMultiplier.length
  masked : ∀ (i : ℕ) (r : NemoRlResult Tok Lp Route K), results[i]? = some r →
    r.messageLog = [] → out.lossMultiplier[i]? = some 0
  kept : ∀ (i : ℕ) (r : NemoRlResult Tok Lp Route K), results[i]? = some r →
    r.messageLog ≠ [] → out.lossMultiplier[i]? = lossMultiplier[i]?
  rewarded : ∀ (i : ℕ) (r : NemoRlResult Tok Lp Route K) (row : NemoGymRow),
    results[i]? = some r → rows[i]? = some row → r.messageLog ≠ [] →
    out.shaped.results[i]? = some (withReward r (documentedReward effortConfig row r))

/-- Where a prompt asks for low effort, its response is not divided by zero. -/
def Divides (effortConfig : EffortLevelsConfig K) (row : NemoGymRow) : Prop :=
  row.prompt.contains effortConfig.lowString → effortConfig.lowUb ≠ 0

/-- No rollout failed, and nothing is divided by zero. -/
structure Shapeable (effortConfig : EffortLevelsConfig K) (rows : List NemoGymRow)
    (results : List (NemoRlResult Tok Lp Route K)) : Prop where
  messageLog_ne_nil : ∀ r ∈ results, r.messageLog ≠ []
  divides : ∀ row ∈ rows, Divides effortConfig row

end Code

/-! ## What the parts return -/

theorem getItem_eq_ok {α : Type} {xs : List α} {i : ℕ} {x : α} :
    getItem xs i = .ok x ↔ xs[i]? = some x := by
  unfold getItem
  cases xs[i]? with
  | none => simp
  | some y => simp

/-- A result with messages has a response, and one without raises. -/
theorem responseLength_eq_ok {result : NemoRlResult Tok Lp Route K} {length : ℕ} :
    responseLength result = .ok length ↔
      result.messageLog ≠ [] ∧ length = responseTokens result := by
  unfold responseLength responseTokens
  cases hlast : result.messageLog.getLast? with
  | none =>
    rw [List.getLast?_eq_none_iff] at hlast
    simp [hlast]
  | some message =>
    have hne : result.messageLog ≠ [] := by
      intro hnil
      rw [hnil, List.getLast?_nil] at hlast
      cases hlast
    simp [hne, eq_comm]

theorem trueDiv_eq_ok [Field K] {length : ℕ} {ub : ℤ} {ratio : K} :
    trueDiv length ub = .ok ratio ↔ ub ≠ 0 ∧ ratio = length / ub := by
  unfold trueDiv
  by_cases hub : ub = 0
  · simp [hub]
  · simp [hub, eq_comm]

/-- The lengths of the responses can be read exactly when no rollout failed. -/
theorem mapM_responseLength {results : List (NemoRlResult Tok Lp Route K)}
    {lengths : List ℕ} :
    results.mapM responseLength = .ok lengths ↔
      (∀ r ∈ results, r.messageLog ≠ []) ∧ lengths = results.map responseTokens := by
  rw [mapM_eq_ok]
  constructor
  · intro h
    induction h with
    | nil => simp
    | cons hr _ ih =>
      obtain ⟨hne, rfl⟩ := responseLength_eq_ok.mp hr
      simpa [hne] using ih
  · rintro ⟨hne, rfl⟩
    rw [List.forall₂_map_right_iff, List.forall₂_same]
    exact fun r hr => responseLength_eq_ok.mpr ⟨hne r hr, rfl⟩

section Proofs
variable [Field K] [LinearOrder K] {results : List (NemoRlResult Tok Lp Route K)}
  {rows : List NemoGymRow} {effortConfig : EffortLevelsConfig K}

/-! ## Shaping -/

/-- A result with its documented reward. -/
def documentedResult (effortConfig : Option (EffortLevelsConfig K)) (rows : List NemoGymRow)
    (p : NemoRlResult Tok Lp Route K × ℕ) : NemoRlResult Tok Lp Route K :=
  match rows[p.2]? with
  | none => p.1
  | some row => withReward p.1 (documentedReward effortConfig row p.1)

theorem messageLog_documentedResult (effortConfig : Option (EffortLevelsConfig K))
    (p : NemoRlResult Tok Lp Route K × ℕ) :
    (documentedResult effortConfig rows p).messageLog = p.1.messageLog := by
  unfold documentedResult
  cases rows[p.2]? with
  | none => rfl
  | some row => rfl

/-- One step appends the shaped result, and it returns exactly when it divides. -/
theorem shapeResult_spec (henabled : effortConfig.disabled = false)
    {shaped : Shaped Tok Lp Route K} {p : NemoRlResult Tok Lp Route K × ℕ} {row : NemoGymRow}
    (hp : results[p.2]? = some p.1) (hrow : rows[p.2]? = some row) :
    (∀ shaped', shapeResult effortConfig rows (results.map responseTokens)
      (results.map fun r => r.fullResult.reward) shaped p = .ok shaped' →
        Divides effortConfig row ∧
        shaped'.results = shaped.results ++ [documentedResult (some effortConfig) rows p]) ∧
    (Divides effortConfig row → ∃ shaped', shapeResult effortConfig rows
      (results.map responseTokens) (results.map fun r => r.fullResult.reward) shaped p =
        .ok shaped') := by
  have hlength : getItem (results.map responseTokens) p.2 = .ok (responseTokens p.1) := by
    rw [getItem_eq_ok, List.getElem?_map, hp, Option.map_some]
  have horig : getItem (results.map fun r => r.fullResult.reward) p.2 =
      .ok p.1.fullResult.reward := by
    rw [getItem_eq_ok, List.getElem?_map, hp, Option.map_some]
  simp only [shapeResult, getItem_eq_ok.mpr hrow, hlength, horig, bind, Except.bind, pure,
    Except.pure, Divides, documentedResult, hrow, documentedReward, henabled]
  cases hlow : row.prompt.contains effortConfig.lowString with
  | false => simp [withReward]
  | true =>
    by_cases hub : effortConfig.lowUb = 0
    · simp [trueDiv, hub]
    · simp [trueDiv, hub, EffortLevelsConfig.newReward]

omit [Field K] [LinearOrder K] in
/-- Every result has a row. -/
theorem exists_row (hlen : results.length = rows.length) {p : NemoRlResult Tok Lp Route K × ℕ}
    (hp : p ∈ results.zipIdx) :
    results[p.2]? = some p.1 ∧ ∃ row, rows[p.2]? = some row := by
  have hget : results[p.2]? = some p.1 := List.mem_zipIdx_iff_getElem?.mp hp
  have hlt : p.2 < results.length := (List.getElem?_eq_some_iff.mp hget).1
  exact ⟨hget, rows[p.2], List.getElem?_eq_getElem (by omega)⟩

/-- A batch that can be shaped is. -/
theorem exists_applyEffortShaping (hlen : results.length = rows.length)
    (henabled : effortConfig.disabled = false) (h : Shapeable effortConfig rows results) :
    ∃ shaped, applyEffortShaping results rows (some effortConfig) = .ok shaped := by
  have hlengths := mapM_responseLength.mpr ⟨h.messageLog_ne_nil, rfl⟩
  simp only [applyEffortShaping, henabled, Bool.false_eq_true, if_false, hlengths, bind,
    Except.bind]
  refine exists_foldlM (fun p hp shaped => ?_) _
  obtain ⟨hget, row, hrow⟩ := exists_row hlen hp
  exact (shapeResult_spec henabled hget hrow).2 (h.divides row (List.mem_of_getElem? hrow))

/-- A batch that is shaped could be, and every result is. -/
theorem applyEffortShaping_ok (hlen : results.length = rows.length)
    (henabled : effortConfig.disabled = false) {shaped : Shaped Tok Lp Route K}
    (h : applyEffortShaping results rows (some effortConfig) = .ok shaped) :
    Shapeable effortConfig rows results ∧
      shaped.results = results.zipIdx.map (documentedResult (some effortConfig) rows) := by
  simp only [applyEffortShaping, henabled, Bool.false_eq_true, if_false] at h
  obtain ⟨lengths, hlengths, hfold⟩ := bind_eq_ok.mp h
  obtain ⟨hne, rfl⟩ := mapM_responseLength.mp hlengths
  -- what has been shaped so far was appended, and it divided
  have hrun : shaped.results = results.zipIdx.map (documentedResult (some effortConfig) rows) ∧
      ∀ p ∈ results.zipIdx, ∀ row, rows[p.2]? = some row → Divides effortConfig row := by
    refine foldlM_invariant hfold (P := fun pre shaped =>
      shaped.results = pre.map (documentedResult (some effortConfig) rows) ∧
        ∀ p ∈ pre, ∀ row, rows[p.2]? = some row → Divides effortConfig row) (by simp) ?_
    intro pre p post shaped shaped' hsplit hpre hstep
    obtain ⟨hget, row, hrow⟩ := exists_row hlen (p := p) (by simp [hsplit])
    obtain ⟨hdivides, hshaped⟩ := (shapeResult_spec henabled hget hrow).1 shaped' hstep
    refine ⟨by simp [hshaped, hpre.1], fun q hq row' hrow' => ?_⟩
    rcases List.mem_append.mp hq with hq | hq
    · exact hpre.2 q hq row' hrow'
    · obtain rfl : q = p := by simpa using hq
      obtain rfl : row = row' := by simpa [hrow] using hrow'
      exact hdivides
  refine ⟨⟨hne, fun row hrow => ?_⟩, hrun.1⟩
  obtain ⟨i, hi⟩ := List.mem_iff_getElem?.mp hrow
  have hlt : i < rows.length := (List.getElem?_eq_some_iff.mp hi).1
  have hp : (results[i], i) ∈ results.zipIdx :=
    List.mem_zipIdx_iff_getElem?.mpr (List.getElem?_eq_getElem (by omega))
  exact hrun.2 _ hp row hi

/-! ## Masking -/

omit [LinearOrder K] in
/-- Masking samples of the batch sets their multipliers to zero. -/
theorem foldlM_maskSample {masked : List ℕ} {lm : List K} (h : ∀ i ∈ masked, i < lm.length) :
    masked.foldlM maskSample lm = .ok (lm.mapIdx fun i x => if i ∈ masked then 0 else x) := by
  induction masked generalizing lm with
  | nil =>
    have hsame : lm.mapIdx (fun _ x => x) = lm := List.ext_getElem? fun j => by simp
    simp [pure, Except.pure, hsame]
  | cons i masked ih =>
    have hstep : maskSample lm i = .ok (lm.set i 0) := if_pos (h i (by simp))
    have hrest : ∀ j ∈ masked, j < (lm.set i 0).length := by
      intro j hj
      rw [List.length_set]
      exact h j (by simp [hj])
    rw [List.foldlM_cons, hstep]
    refine (ih hrest).trans (congrArg Except.ok ?_)
    refine List.ext_getElem? fun j => ?_
    simp only [List.getElem?_mapIdx, List.getElem?_set, List.mem_cons]
    by_cases hij : i = j
    · subst hij
      have hi : i < lm.length := h i (by simp)
      simp [hi]
    · simp [hij, Ne.symm hij]

omit [LinearOrder K] in
/-- Every sample without messages loses its multiplier. -/
theorem applyEmptyMessageLogMask_eq {lm : List K} (hlen : results.length = lm.length) :
    applyEmptyMessageLogMask results lm = .ok (lm.mapIdx fun i x =>
      if (results[i]?.any fun r => r.messageLog.isEmpty) then 0 else x) := by
  have hmem : ∀ i, i ∈ (results.zipIdx.filter fun p => p.1.messageLog.isEmpty).map Prod.snd ↔
      (results[i]?.any fun r => r.messageLog.isEmpty) := by
    intro i
    simp [List.mem_zipIdx_iff_getElem?, Option.any_eq_true]
  rw [applyEmptyMessageLogMask, foldlM_maskSample]
  · simp only [hmem]
  · intro i hi
    obtain ⟨r, hr, -⟩ := (Option.any_eq_true _ _).mp ((hmem i).mp hi)
    have hlt := (List.getElem?_eq_some_iff.mp hr).1
    omega

/-! ## Shaping and masking -/

/-- Shaping that is disabled leaves every result with its documented reward. -/
theorem map_documentedResult {effortConfig : Option (EffortLevelsConfig K)}
    (h : ∀ config, effortConfig = some config → config.disabled = true) :
    results.zipIdx.map (documentedResult effortConfig rows) = results := by
  have hsame : ∀ p : NemoRlResult Tok Lp Route K × ℕ,
      documentedResult effortConfig rows p = p.1 := by
    intro p
    unfold documentedResult
    cases rows[p.2]? with
    | none => rfl
    | some row =>
      cases effortConfig with
      | none => rfl
      | some config => simp [documentedReward, h config rfl, withReward]
  calc results.zipIdx.map (documentedResult effortConfig rows)
      = results.zipIdx.map Prod.fst := List.map_congr_left fun p _ => hsame p
    _ = results := List.zipIdx_map_fst 0 results

/-- Shaping returns exactly when it is disabled or the batch can be shaped. -/
theorem applyEffortShaping_iff (hlen : results.length = rows.length)
    (effortConfig : Option (EffortLevelsConfig K)) :
    (∃ shaped, applyEffortShaping results rows effortConfig = .ok shaped) ↔
      ∀ config, effortConfig = some config → config.disabled = false →
        Shapeable config rows results := by
  cases effortConfig with
  | none => simp [applyEffortShaping]
  | some config =>
    simp only [Option.some.injEq, forall_eq']
    cases hdisabled : config.disabled with
    | true => simp [applyEffortShaping, hdisabled]
    | false =>
      constructor
      · rintro ⟨shaped, hshaped⟩ -
        exact (applyEffortShaping_ok hlen hdisabled hshaped).1
      · intro h
        exact exists_applyEffortShaping hlen hdisabled (h rfl)

/-- Whatever shaping returns, it returned the documented results. -/
theorem results_of_applyEffortShaping (hlen : results.length = rows.length)
    {effortConfig : Option (EffortLevelsConfig K)} {shaped : Shaped Tok Lp Route K}
    (h : applyEffortShaping results rows effortConfig = .ok shaped) :
    shaped.results = results.zipIdx.map (documentedResult effortConfig rows) := by
  cases effortConfig with
  | none =>
    cases h
    rw [map_documentedResult (by simp)]
  | some config =>
    cases hdisabled : config.disabled with
    | true =>
      simp only [applyEffortShaping, hdisabled, if_true, Except.ok.injEq] at h
      rw [map_documentedResult (by simp [hdisabled]), ← h]
    | false => exact (applyEffortShaping_ok hlen hdisabled h).2

/-- Shaped results that are masked are shaped and masked as documented. -/
theorem shapedAndMasked (hlen : results.length = rows.length) {lossMultiplier : List K}
    (hlm : results.length = lossMultiplier.length)
    {effortConfig : Option (EffortLevelsConfig K)} {shaped : Shaped Tok Lp Route K}
    (h : applyEffortShaping results rows effortConfig = .ok shaped) :
    ∃ lm, applyEmptyMessageLogMask shaped.results lossMultiplier = .ok lm ∧
      ShapedAndMasked results rows effortConfig lossMultiplier ⟨shaped, lm⟩ := by
  have hshaped := results_of_applyEffortShaping hlen h
  have hget : ∀ i r, results[i]? = some r →
      shaped.results[i]? = some (documentedResult effortConfig rows (r, i)) := by
    intro i r hr
    simp [hshaped, hr]
  have hlength : shaped.results.length = results.length := by simp [hshaped]
  have hmask := applyEmptyMessageLogMask_eq (hlength.trans hlm)
  refine ⟨_, hmask, hlength, by simp, ?_, ?_, ?_⟩
  · intro i r hr hnil
    have hi : i < lossMultiplier.length := hlm ▸ (List.getElem?_eq_some_iff.mp hr).1
    simp [hget i r hr, messageLog_documentedResult, hnil, hi]
  · intro i r hr hne
    simp [hget i r hr, messageLog_documentedResult, hne]
  · intro i r row hr hrow _
    simp [hget i r hr, documentedResult, hrow]

theorem exists_shaped {effortConfig : Option (EffortLevelsConfig K)} {lossMultiplier : List K}
    {out : Postprocessed Tok Lp Route K}
    (h : shapeAndMask results rows effortConfig lossMultiplier = .ok out) :
    ∃ shaped, applyEffortShaping results rows effortConfig = .ok shaped := by
  obtain ⟨shaped, hshaped, -⟩ := bind_eq_ok.mp h
  exact ⟨shaped, hshaped⟩

/-- Failed rollouts are masked and every other sample is rewarded as documented exactly when
shaping is disabled, or no rollout failed and nothing is divided by zero. -/
theorem shapeAndMask_iff (results : List (NemoRlResult Tok Lp Route K)) (rows : List NemoGymRow)
    (hrows : results.length = rows.length) (lossMultiplier : List K)
    (hlm : results.length = lossMultiplier.length)
    (effortConfig : Option (EffortLevelsConfig K)) :
    (∃ out, shapeAndMask results rows effortConfig lossMultiplier = .ok out ∧
      ShapedAndMasked results rows effortConfig lossMultiplier out) ↔
      ∀ config, effortConfig = some config → config.disabled = false →
        Shapeable config rows results := by
  rw [← applyEffortShaping_iff hrows]
  constructor
  · rintro ⟨out, hout, -⟩
    exact exists_shaped hout
  · rintro ⟨shaped, hshaped⟩
    obtain ⟨lm, hmask, hdone⟩ := shapedAndMasked hrows hlm hshaped
    refine ⟨⟨shaped, lm⟩, ?_, hdone⟩
    rw [shapeAndMask, hshaped]
    exact bind_eq_ok.mpr ⟨shaped, rfl, bind_eq_ok.mpr ⟨lm, hmask, rfl⟩⟩

end Proofs

/-! ## A batch with a failed rollout -/

/-- Prompts with the tag ask for low effort. -/
def lowEffort : EffortLevelsConfig ℚ where
  lowWeight := 1
  lowUb := 1000
  lowString := "<budget>"

/-- A prompt that asks for low effort. -/
def budgetRow : NemoGymRow := ⟨[⟨some "user", some (.text "<budget> solve this")⟩]⟩

/-- A response of one token with a reward. -/
def answered : NemoRlResult ℕ ℕ ℕ ℚ where
  messageLog := [⟨"user", "", [1], none, none, none⟩, ⟨"assistant", "", [2], some [0], none, none⟩]
  inputMessageLog := [⟨"user", "", [1], none, none, none⟩]
  fullResult := ⟨1, []⟩

/-- Without failed rollouts the batch is shaped and masked. -/
theorem shapeAndMask_iff_answered :
    (∃ out, shapeAndMask [answered] [budgetRow] (some lowEffort) [1] = .ok out ∧
      ShapedAndMasked [answered] [budgetRow] (some lowEffort) [1] out) ↔
      ∀ config, some lowEffort = some config → config.disabled = false →
        Shapeable config [budgetRow] [answered] :=
  shapeAndMask_iff [answered] [budgetRow] rfl [1] rfl (some lowEffort)

/-- The environment with default patterns and a single attempt. -/
def defaultGym : NemoGym := ⟨none, none, false, 1, Nat.one_pos⟩

/-- A rollout that failed aborts the batch before it is masked. -/
theorem shapeAndMask_failedResult :
    ¬ ∃ out, shapeAndMask
        [answered, defaultGym.processed (fun _ => "") (.ok NemoGym.failedResult)]
        [budgetRow, budgetRow] (some lowEffort) [1, 1] = .ok out ∧
      ShapedAndMasked [answered, defaultGym.processed (fun _ => "") (.ok NemoGym.failedResult)]
        [budgetRow, budgetRow] (some lowEffort) [1, 1] out := by
  rintro ⟨out, hout, -⟩
  obtain ⟨shaped, hshaped⟩ := exists_shaped hout
  have henabled : lowEffort.disabled = false := by decide
  have hraises : applyEffortShaping
      [answered, defaultGym.processed (fun _ => "") (.ok NemoGym.failedResult)]
      [budgetRow, budgetRow] (some lowEffort) =
      .error ⟨.indexError, "list index out of range"⟩ := by
    simp only [applyEffortShaping, henabled]
    rfl
  rw [hraises] at hshaped
  cases hshaped

end NemoRL.Experience.EffortShaping
