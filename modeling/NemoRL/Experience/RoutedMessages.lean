import NemoRL.Generation.RoutedExperts
import NemoRL.Lib.Segments

/-!
# Messages with routed experts

A response is generated from the tokens of all messages before it, and the backend reports the
routes of all of them. The messages before the response get their routes anew each time, and the
response gets those that are left. An observation gets default routes until then.

## Main definitions

* `appendResponse` — the messages after a response.
* `observationMessage` — what the environment says.
-/

namespace NemoRL.Experience

open Lib Generation

/-- A message of a rollout. -/
structure RolloutMessage (Tok Lp : Type) where
  role : String
  content : String
  tokenIds : List Tok
  generationLogprobs : Option (List Lp) := none
  routedExperts : Option RoutedExperts := none
  deriving DecidableEq, Repr

/-- What the generation interface returns for a sample. -/
structure GenerationOutput (Tok Lp : Type) where
  outputIds : List Tok
  unpaddedSequenceLength : ℕ
  logprobs : Option (List Lp)
  routedExperts : Option RoutedExperts
  truncated : Option Bool
  deriving DecidableEq, Repr

variable {Tok Lp : Type}

/-- The routes between two positions. -/
def sliceRoutes (routed : RoutedExperts) (start stop : ℕ) : RoutedExperts :=
  { routed with rows := slice routed.rows start stop }

/-- The tokens of all messages. -/
def logTokens (messageLog : List (RolloutMessage Tok Lp)) : List Tok :=
  messageLog.flatMap RolloutMessage.tokenIds

/-- Attach routes to messages from a position on, and return the position behind them. -/
def attachRoutedExpertsToMessageLogPrefix (routedExperts : RoutedExperts) :
    ℕ → List (RolloutMessage Tok Lp) → List (RolloutMessage Tok Lp) × ℕ
  | cursor, [] => ([], cursor)
  | cursor, message :: messageLog =>
    let stop := cursor + message.tokenIds.length
    let rest := attachRoutedExpertsToMessageLogPrefix routedExperts stop messageLog
    ({ message with routedExperts := some (sliceRoutes routedExperts cursor stop) } :: rest.1,
      rest.2)

/-- The first routes of a message. -/
def findRoutedExpertsTemplate (messageLog : List (RolloutMessage Tok Lp)) :
    Option RoutedExperts :=
  messageLog.findSome? RolloutMessage.routedExperts

/-- Default routes for tokens. -/
def dummyRoutedExpertsForTokens (tokenIds : List Tok) (template : RoutedExperts) :
    RoutedExperts :=
  { template with
    rows := List.replicate tokenIds.length (defaultRoute template.numMoeLayers template.topk) }

/-- Append a response to the messages that it was generated from. -/
def appendResponse (decode : List Tok → String) (includeLogprobs : Bool)
    (messageLog : List (RolloutMessage Tok Lp)) (inputLength : ℕ)
    (output : GenerationOutput Tok Lp) : Except PyError (List (RolloutMessage Tok Lp)) :=
  let totalLength := output.unpaddedSequenceLength
  let generatedIds := slice output.outputIds inputLength totalLength
  let assistantMessage : RolloutMessage Tok Lp :=
    { role := "assistant"
      content := decode generatedIds
      tokenIds := generatedIds
      generationLogprobs :=
        if includeLogprobs then
          output.logprobs.map fun logprobs => slice logprobs inputLength totalLength
        else none }
  match output.routedExperts with
  | none => .ok (messageLog ++ [assistantMessage])
  | some routedExperts =>
    let attached := attachRoutedExpertsToMessageLogPrefix routedExperts 0 messageLog
    if attached.2 ≠ inputLength then
      .error ⟨.runtimeError, "message_log token length does not match generation input_length " ++
        s!"({attached.2} != {inputLength})."⟩
    else
      .ok (attached.1 ++ [{ assistantMessage with
        routedExperts := some (sliceRoutes routedExperts inputLength totalLength) }])

/-- The message of an observation behind some messages. -/
def observationMessage (messageLog : List (RolloutMessage Tok Lp)) (role content : String)
    (tokenIds : List Tok) : RolloutMessage Tok Lp :=
  { role := role
    content := content
    tokenIds := tokenIds
    routedExperts := (findRoutedExpertsTemplate messageLog).map
      (dummyRoutedExpertsForTokens tokenIds) }

/-! ## Routes by position -/

/-- The route of every token of a message. -/
def routesOfTokens (tokenCount : ℕ) (rows : Option (List Route)) : List (Option Route) :=
  (List.range tokenCount).map fun i => rows.bind fun rows => rows[i]?

/-- The routes of the tokens of a message. -/
def RolloutMessage.routeColumn (message : RolloutMessage Tok Lp) : List (Option Route) :=
  routesOfTokens message.tokenIds.length (message.routedExperts.map RoutedExperts.rows)

/-- The routes of the tokens of all messages. -/
def routeColumn (messageLog : List (RolloutMessage Tok Lp)) : List (Option Route) :=
  messageLog.flatMap RolloutMessage.routeColumn

@[simp] theorem routesOfTokens_some {rows : List Route} {tokenCount : ℕ}
    (h : rows.length = tokenCount) : routesOfTokens tokenCount (some rows) = rows.map some := by
  subst h
  apply List.ext_getElem (by simp [routesOfTokens])
  intro i hi _
  simp only [routesOfTokens, List.length_map, List.length_range] at hi
  simp [routesOfTokens, hi]

/-- Attached messages have the rows of their tokens, one after the other. -/
theorem attach_spec (routedExperts : RoutedExperts) :
    ∀ (messageLog : List (RolloutMessage Tok Lp)) (cursor : ℕ),
      cursor + (logTokens messageLog).length ≤ routedExperts.rows.length →
      (attachRoutedExpertsToMessageLogPrefix routedExperts cursor messageLog).2 =
        cursor + (logTokens messageLog).length ∧
      routeColumn (attachRoutedExpertsToMessageLogPrefix routedExperts cursor messageLog).1 =
        (slice routedExperts.rows cursor
          (cursor + (logTokens messageLog).length)).map some ∧
      logTokens (attachRoutedExpertsToMessageLogPrefix routedExperts cursor messageLog).1 =
        logTokens messageLog := by
  intro messageLog
  induction messageLog with
  | nil =>
    intro cursor _
    refine ⟨rfl, ?_, rfl⟩
    simp [attachRoutedExpertsToMessageLogPrefix, routeColumn, logTokens, slice]
  | cons message messageLog ih =>
    intro cursor h
    have hlength : (logTokens (message :: messageLog)).length =
        message.tokenIds.length + (logTokens messageLog).length := by simp [logTokens]
    obtain ⟨hcursor, hcolumn, htokens⟩ := ih (cursor + message.tokenIds.length) (by omega)
    refine ⟨?_, ?_, ?_⟩
    · rw [hlength, ← Nat.add_assoc]
      exact hcursor
    · have hhead : (slice routedExperts.rows cursor
          (cursor + message.tokenIds.length)).length = message.tokenIds.length := by
        rw [length_slice (by omega)]
        omega
      have hrow := routesOfTokens_some hhead
      calc routeColumn (attachRoutedExpertsToMessageLogPrefix routedExperts cursor
            (message :: messageLog)).1
          = routesOfTokens message.tokenIds.length (some (slice routedExperts.rows cursor
              (cursor + message.tokenIds.length))) ++
            routeColumn (attachRoutedExpertsToMessageLogPrefix routedExperts
              (cursor + message.tokenIds.length) messageLog).1 := rfl
        _ = _ := by
            rw [hrow, hcolumn, ← List.map_append, slice_append_slice _ (by omega) (by omega),
              hlength, Nat.add_assoc]
    · change message.tokenIds ++ logTokens _ = _
      rw [htokens]
      rfl

theorem routeColumn_append (a b : List (RolloutMessage Tok Lp)) :
    routeColumn (a ++ b) = routeColumn a ++ routeColumn b := by
  simp [routeColumn]

theorem logTokens_append (a b : List (RolloutMessage Tok Lp)) :
    logTokens (a ++ b) = logTokens a ++ logTokens b := by
  simp [logTokens]

/-- The routes that observations are modelled on have the dimensions of the attached ones. -/
theorem findRoutedExpertsTemplate_attach (routed : RoutedExperts)
    (messageLog : List (RolloutMessage Tok Lp)) (cursor : ℕ)
    {last : RolloutMessage Tok Lp} {lastRouted : RoutedExperts}
    (hlast : last.routedExperts = some lastRouted)
    (hlayers : lastRouted.numMoeLayers = routed.numMoeLayers)
    (htopk : lastRouted.topk = routed.topk) :
    ∃ template, findRoutedExpertsTemplate
        ((attachRoutedExpertsToMessageLogPrefix routed cursor messageLog).1 ++ [last]) =
          some template ∧
      template.numMoeLayers = routed.numMoeLayers ∧ template.topk = routed.topk := by
  cases messageLog with
  | nil =>
    exact ⟨lastRouted, by simp [findRoutedExpertsTemplate,
      attachRoutedExpertsToMessageLogPrefix, hlast], hlayers, htopk⟩
  | cons message messageLog =>
    exact ⟨sliceRoutes routed cursor (cursor + message.tokenIds.length), rfl, rfl, rfl⟩

/-- A response whose routes cover all tokens leaves every token with its route. -/
theorem appendResponse_routed (decode : List Tok → String) (includeLogprobs : Bool)
    {messageLog : List (RolloutMessage Tok Lp)} {output : GenerationOutput Tok Lp}
    {generatedIds padding : List Tok} {routed : RoutedExperts}
    (hids : output.outputIds = logTokens messageLog ++ generatedIds ++ padding)
    (hlength : output.unpaddedSequenceLength =
      (logTokens messageLog).length + generatedIds.length)
    (hrouted : output.routedExperts = some routed)
    (hrows : output.unpaddedSequenceLength ≤ routed.rows.length) :
    ∃ messageLog' : List (RolloutMessage Tok Lp),
      appendResponse decode includeLogprobs messageLog (logTokens messageLog).length output =
        .ok messageLog' ∧
      logTokens messageLog' = logTokens messageLog ++ generatedIds ∧
      routeColumn messageLog' =
        (routed.rows.take output.unpaddedSequenceLength).map some ∧
      ∃ template, findRoutedExpertsTemplate messageLog' = some template ∧
        template.numMoeLayers = routed.numMoeLayers ∧ template.topk = routed.topk := by
  have hgenerated : slice output.outputIds (logTokens messageLog).length
      output.unpaddedSequenceLength = generatedIds := by
    rw [hids, hlength, slice, Nat.add_sub_cancel_left, List.append_assoc, List.drop_left,
      List.take_left]
  have hcover : 0 + (logTokens messageLog).length ≤ routed.rows.length := by omega
  obtain ⟨hcursor, hcolumn, htokens⟩ := attach_spec routed messageLog 0 hcover
  rw [Nat.zero_add] at hcursor hcolumn
  have hlast : (slice routed.rows (logTokens messageLog).length
      output.unpaddedSequenceLength).length = generatedIds.length := by
    rw [length_slice hrows, hlength]
    omega
  unfold appendResponse
  simp only [hrouted, hcursor, hgenerated, ne_eq, not_true_eq_false, ↓reduceIte]
  refine ⟨_, rfl, ?_, ?_, ?_⟩
  · rw [logTokens_append, htokens]
    simp [logTokens]
  · rw [routeColumn_append, hcolumn]
    have hrow := routesOfTokens_some hlast
    calc _ = List.map some (slice routed.rows 0 (logTokens messageLog).length) ++
          routesOfTokens generatedIds.length (some (slice routed.rows
            (logTokens messageLog).length output.unpaddedSequenceLength)) := by
          simp [routeColumn, RolloutMessage.routeColumn, sliceRoutes]
      _ = _ := by
          rw [hrow, ← List.map_append, slice_append_slice _ (Nat.zero_le _) (by omega)]
          simp [slice]
  · exact findRoutedExpertsTemplate_attach routed messageLog 0 rfl rfl rfl

/-- An observation behind messages with routes has default routes. -/
theorem routeColumn_observation {messageLog : List (RolloutMessage Tok Lp)}
    {template : RoutedExperts} (htemplate : findRoutedExpertsTemplate messageLog = some template)
    (role content : String) (tokenIds : List Tok) :
    (observationMessage messageLog role content tokenIds).routeColumn =
      List.replicate tokenIds.length
        (some (defaultRoute template.numMoeLayers template.topk)) := by
  unfold RolloutMessage.routeColumn observationMessage
  rw [htemplate]
  simp only [Option.map_some, dummyRoutedExpertsForTokens]
  rw [routesOfTokens_some (by simp), List.map_replicate]

end NemoRL.Experience
