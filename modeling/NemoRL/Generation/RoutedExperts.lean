import Mathlib.Data.Int.Notation
import Mathlib.Data.List.Basic
import NemoRL.Error

/-!
# Routed experts

For every token the router of every layer selects experts. The generation backend reports one
row of them for a token once the next token was sampled, so that the last token of a sequence
has none. Rows are aligned to the tokens of the sequence: the last one gets the experts in
order, which stand for no report.

## Main definitions

* `padAndAlignRoutedExpertIndices` — one row for each position of a sequence.

## Main results

* `padAndAlign_complete` — what becomes of a report without missing rows.
-/

namespace NemoRL.Generation

/-- The experts of a token in every layer. -/
abbrev Route : Type := List (List ℤ)

/-- A tensor with one route for each token. -/
structure RoutedExperts where
  numMoeLayers : ℕ
  topk : ℕ
  rows : List Route
  deriving DecidableEq, Repr

/-- A tensor as the backend returns it. -/
inductive RoutedTensor
  | tokens (routed : RoutedExperts)
  /-- A tensor of another dimension, with its shape. -/
  | other (shape : List ℕ)
  deriving DecidableEq, Repr

def R3_MISSING_ROUTE_SENTINEL : ℤ := -1

/-- The route whose experts are the first ones in every layer. -/
def defaultRoute (numMoeLayers topk : ℕ) : Route :=
  List.replicate numMoeLayers ((List.range topk).map Int.ofNat)

/-- The route of a token that the backend left out. -/
def missingRoute (numMoeLayers topk : ℕ) : Route :=
  List.replicate numMoeLayers (List.replicate topk R3_MISSING_ROUTE_SENTINEL)

/-- A shape as a Python tuple. -/
def tupleText : List ℕ → String
  | [n] => s!"({n},)"
  | shape => "(" ++ ", ".intercalate (shape.map fun n => s!"{n}") ++ ")"

/-- An optional number as Python prints it. -/
def noneText : Option ℕ → String
  | none => "None"
  | some n => s!"{n}"

/-- What the backend returned for a sequence. -/
structure RequestOutput where
  promptRoutedExperts : Option RoutedTensor
  routedExperts : Option RoutedTensor
  numCachedTokens : Option ℕ
  deriving DecidableEq, Repr

/-- The shape of a tensor. -/
def RoutedTensor.shape : RoutedTensor → List ℕ
  | .tokens routed => [routed.rows.length, routed.numMoeLayers, routed.topk]
  | .other shape => shape

/-- Append two tensors along their first dimension. A tensor of shape `[0]` fits to all. -/
def catRouted (a b : RoutedTensor) : Except PyError RoutedTensor :=
  match a.shape, b.shape with
  | [], _ =>
    .error ⟨.runtimeError, "zero-dimensional tensor (at position 0) cannot be concatenated"⟩
  | _, [] =>
    .error ⟨.runtimeError, "zero-dimensional tensor (at position 1) cannot be concatenated"⟩
  | [0], _ => .ok b
  | _, [0] => .ok a
  | m :: ms, n :: ns =>
    if ms.length ≠ ns.length then
      .error ⟨.runtimeError, "Tensors must have same number of dimensions: got " ++
        s!"{ms.length + 1} and {ns.length + 1}"⟩
    else
      match (ms.zip ns).find? fun p => p.1 ≠ p.2 with
      | some (expected, got) =>
        .error ⟨.runtimeError, "Sizes of tensors must match except in dimension 0. Expected " ++
          s!"size {expected} but got size {got} for tensor number 1 in the list."⟩
      | none =>
        match a, b with
        | .tokens a, .tokens b => .ok (.tokens { a with rows := a.rows ++ b.rows })
        | _, _ => .ok (.other ((m + n) :: ms))

/-- The routes of the prompt and of the response. -/
def RequestOutput.routed (output : RequestOutput) : Except PyError (Option RoutedTensor) :=
  match output.promptRoutedExperts, output.routedExperts with
  | some promptRouted, some routed => (catRouted promptRouted routed).map some
  | some promptRouted, none => .ok (some promptRouted)
  | none, routed => .ok routed

/-- How the report of a sequence compares with the rows that are expected. -/
structure AlignmentStats where
  actualRoutes : ℕ
  expectedRoutes : ℕ
  missingRoutes : ℕ
  surplusRoutes : ℕ
  deriving DecidableEq, Repr

/-- The number of rows that are expected of a sequence. -/
def expectedRoutes (validLength paddedLength : ℕ) : ℕ := min (validLength - 1) paddedLength

/-- The rows of a sequence: those that were reported, the missing ones and, from the last token
on, the default ones. -/
def alignRows (routed : RoutedExperts) (expected paddedLength : ℕ) : List Route :=
  let routesToCopy := min expected routed.rows.length
  let missing := expected - routesToCopy
  routed.rows.take routesToCopy ++
    List.replicate missing (missingRoute routed.numMoeLayers routed.topk) ++
    List.replicate (paddedLength - expected) (defaultRoute routed.numMoeLayers routed.topk)

/-- One row for each position of a padded sequence. -/
def padAndAlignRoutedExpertIndices (output : RequestOutput) (validLength paddedLength : ℕ)
    (requireCompleteRoutedExperts allowMissingRoutedExpertsFallback : Bool) :
    Except PyError (Option RoutedExperts × AlignmentStats) := do
  let routed ← output.routed
  let expected := expectedRoutes validLength paddedLength
  match routed with
  | none => .ok (none, ⟨0, expected, 0, 0⟩)
  | some (.other shape) =>
    .error ⟨.valueError, "vLLM routed_experts must have shape [tokens, num_moe_layers, topk], " ++
      s!"got {tupleText shape}"⟩
  | some (.tokens routed) =>
    let actual := routed.rows.length
    let stats : AlignmentStats :=
      ⟨actual, expected, expected - actual, actual - (expected + 1)⟩
    if requireCompleteRoutedExperts ∧ actual < expected ∧ ¬ allowMissingRoutedExpertsFallback then
      .error ⟨.valueError, "vLLM returned incomplete routed_experts for router replay: " ++
        s!"routes={actual}, expected_at_least={expected}, valid_length={validLength}, " ++
        s!"padded_length={paddedLength}, num_cached_tokens={noneText output.numCachedTokens}. " ++
        "This usually means the generation backend did not return routed experts for every " ++
        "non-final token in the prompt+response sequence."⟩
    else if requireCompleteRoutedExperts ∧ expected + 1 < actual then
      .error ⟨.valueError, "vLLM returned too many routed_experts routes for router replay: " ++
        s!"routes={actual}, expected={expected}, max_allowed={expected + 1}, " ++
        s!"valid_length={validLength}, padded_length={paddedLength}, " ++
        s!"num_cached_tokens={noneText output.numCachedTokens}. " ++
        "Router replay allows at most one surplus final-token route."⟩
    else
      .ok (some { routed with rows := alignRows routed expected paddedLength }, stats)

/-! ## Complete reports -/

/-- A report for a sequence of `n` tokens: a row for every position but the last, which may have
one as well. -/
structure Reports (output : RequestOutput) (n : ℕ) (routed : RoutedExperts) : Prop where
  routed_eq : output.routed = .ok (some (.tokens routed))
  length_eq : routed.rows.length + 1 = n ∨ routed.rows.length = n

/-- The first `n - 1` routes and default ones behind them. -/
def RoutedExperts.completed (routed : RoutedExperts) (n paddedLength : ℕ) : RoutedExperts :=
  { routed with
    rows := routed.rows.take (n - 1) ++ List.replicate (paddedLength - (n - 1))
      (defaultRoute routed.numMoeLayers routed.topk) }

section
variable {output : RequestOutput} {n : ℕ} {routed : RoutedExperts}

theorem Reports.length_take (h : Reports output n routed) :
    (routed.rows.take (n - 1)).length = n - 1 := by
  have hlength := h.length_eq
  rw [List.length_take]
  omega

theorem Reports.length_completed (h : Reports output n routed) {paddedLength : ℕ}
    (hpadded : n ≤ paddedLength) :
    (routed.completed n paddedLength).rows.length = paddedLength := by
  have htake := h.length_take
  simp only [RoutedExperts.completed, List.length_append, htake, List.length_replicate]
  omega

/-- A position before the last one keeps the route that was reported. -/
theorem Reports.getElem?_completed (h : Reports output n routed) {paddedLength pos : ℕ}
    (hpos : pos < n - 1) :
    (routed.completed n paddedLength).rows[pos]? = routed.rows[pos]? := by
  have htake := h.length_take
  simp only [RoutedExperts.completed]
  rw [List.getElem?_append_left (by omega), List.getElem?_take_of_lt hpos]

/-- The last position gets the default route. -/
theorem Reports.getElem?_completed_last (h : Reports output n routed) {paddedLength : ℕ}
    (hn : 0 < n) (hpadded : n ≤ paddedLength) :
    (routed.completed n paddedLength).rows[n - 1]? =
      some (defaultRoute routed.numMoeLayers routed.topk) := by
  have htake := h.length_take
  simp only [RoutedExperts.completed]
  rw [List.getElem?_append_right (by omega), htake, Nat.sub_self, List.getElem?_replicate,
    if_pos (by omega)]

/-- A complete report is aligned with its first `n - 1` rows and default ones behind them. -/
theorem padAndAlign_complete (h : Reports output n routed) {paddedLength : ℕ}
    (hpadded : n ≤ paddedLength) (requireComplete allowMissing : Bool) :
    ∃ stats, padAndAlignRoutedExpertIndices output n paddedLength requireComplete allowMissing =
      .ok (some (routed.completed n paddedLength), stats) := by
  have hexpected : expectedRoutes n paddedLength = n - 1 := by
    unfold expectedRoutes
    omega
  have hlength := h.length_eq
  have hrows : alignRows routed (n - 1) paddedLength =
      routed.rows.take (n - 1) ++ List.replicate (paddedLength - (n - 1))
        (defaultRoute routed.numMoeLayers routed.topk) := by
    have hcopy : min (n - 1) routed.rows.length = n - 1 := by omega
    simp [alignRows, hcopy]
  unfold padAndAlignRoutedExpertIndices
  simp only [h.routed_eq, bind, Except.bind, hexpected]
  rw [if_neg (by omega), if_neg (by omega), hrows]
  exact ⟨_, rfl⟩

end

end NemoRL.Generation
