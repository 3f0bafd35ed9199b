import NemoRL.Experience.RoutedMessages
import NemoRL.Lib.Except

/-!
# Routes over several turns

The last token of a call has no reported route, and it is filled in with a default one. A later
call reports it. The rollouts attach the routes of a later call to all messages before it, so
that the default route is replaced.

## Main definitions

* `nativeRollout` — responses and observations, turn by turn.
* `RoutesKept` — every token before the last generated one has a reported route.

## Main results

* `nativeRollout_routesKept` — the rollouts keep the routes on their tokens.
-/

namespace NemoRL.Experience

open Lib Generation

variable {Tok Lp : Type}

/-! ## Rollouts -/

/-- What vLLM does with a sample: the tokens that it generates, what is padded behind them and
what it reports. -/
structure VllmCall (Tok Lp : Type) where
  generatedIds : List Tok
  padding : List Tok
  logprobs : List Lp
  truncated : Bool
  output : RequestOutput

/-- The output of a generation worker for a sample. -/
def vllmResponse (returnRoutedExperts : Bool) (inputIds : List Tok) (call : VllmCall Tok Lp) :
    Except PyError (GenerationOutput Tok Lp) := do
  let responseLength := inputIds.length + call.generatedIds.length
  let outputIds := inputIds ++ call.generatedIds ++ call.padding
  let (routedExperts, _) ← padAndAlignRoutedExpertIndices call.output responseLength
    outputIds.length returnRoutedExperts true
  if returnRoutedExperts && routedExperts.isNone then
    throw ⟨.runtimeError, "vLLM was asked to return routed experts but the generation output " ++
      "did not include routed_experts."⟩
  return {
    outputIds := outputIds
    unpaddedSequenceLength := responseLength
    logprobs := some call.logprobs
    routedExperts := routedExperts
    truncated := some call.truncated }

/-- A turn: a call and the observation behind it. -/
structure NativeTurn (Tok Lp : Type) where
  call : VllmCall Tok Lp
  observationRole : String
  observationContent : String
  observationIds : List Tok

/-- The messages after a turn. -/
def nativeTurn (decode : List Tok → String) (returnRoutedExperts : Bool)
    (messageLog : List (RolloutMessage Tok Lp)) (turn : NativeTurn Tok Lp) :
    Except PyError (List (RolloutMessage Tok Lp)) := do
  let inputIds := logTokens messageLog
  let output ← vllmResponse returnRoutedExperts inputIds turn.call
  let messageLog ← appendResponse decode true messageLog inputIds.length output
  return messageLog ++ [observationMessage messageLog turn.observationRole
    turn.observationContent turn.observationIds]

/-- The messages after some turns. -/
def nativeRollout (decode : List Tok → String) (returnRoutedExperts : Bool)
    (messageLog : List (RolloutMessage Tok Lp)) (turns : List (NativeTurn Tok Lp)) :
    Except PyError (List (RolloutMessage Tok Lp)) :=
  turns.foldlM (nativeTurn decode returnRoutedExperts) messageLog

/-! ## Reported routes -/

/-- A call by the positions of its tokens, with the routes that were reported for it. -/
structure ReportedCall where
  promptLength : ℕ
  length : ℕ
  rows : List Route
  deriving DecidableEq, Repr

/-- Whether some call reported a route for a position. -/
def ReportedFor (calls : List ReportedCall) (pos : ℕ) (route : Route) : Prop :=
  ∃ call ∈ calls, call.rows[pos]? = some route

/-- Whether a token was generated behind a position. -/
def BeforeLastGenerated (calls : List ReportedCall) (pos : ℕ) : Prop :=
  ∃ call ∈ calls, ∃ later, pos < later ∧ call.promptLength ≤ later ∧ later < call.length

/-- The route of every token before the last generated one was reported for its position, and a
default route that was not reported is on the last generated token or behind it. -/
structure RoutesKept (numMoeLayers topk : ℕ) (calls : List ReportedCall)
    (column : List (Option Route)) : Prop where
  reported : ∀ pos, BeforeLastGenerated calls pos →
    ∃ route, column[pos]? = some (some route) ∧ ReportedFor calls pos route
  default_behind : ∀ pos, column[pos]? = some (some (defaultRoute numMoeLayers topk)) →
    ¬ ReportedFor calls pos (defaultRoute numMoeLayers topk) → ¬ BeforeLastGenerated calls pos

/-- Default routes behind the last generated token need no further argument. -/
theorem RoutesKept.of_reported {numMoeLayers topk : ℕ} {calls : List ReportedCall}
    {column : List (Option Route)}
    (h : ∀ pos, BeforeLastGenerated calls pos →
      ∃ route, column[pos]? = some (some route) ∧ ReportedFor calls pos route) :
    RoutesKept numMoeLayers topk calls column := by
  refine ⟨h, fun pos hdefault hnot hbefore => ?_⟩
  obtain ⟨route, hroute, hreported⟩ := h pos hbefore
  rw [hdefault] at hroute
  obtain rfl : defaultRoute numMoeLayers topk = route := by simpa using hroute
  exact hnot hreported

/-- The calls of a rollout, with complete reports. -/
def NativeReports (numMoeLayers topk : ℕ) :
    ℕ → List (NativeTurn Tok Lp) → List ReportedCall → Prop
  | _, [], [] => True
  | inputLength, turn :: turns, call :: calls =>
    (call.promptLength = inputLength ∧
      call.length = inputLength + turn.call.generatedIds.length ∧
      Reports turn.call.output call.length ⟨numMoeLayers, topk, call.rows⟩) ∧
    NativeReports numMoeLayers topk (call.length + turn.observationIds.length) turns calls
  | _, _, _ => False

/-! ## The rollouts keep the routes -/

variable {numMoeLayers topk : ℕ} (decode : List Tok → String) (returnRoutedExperts : Bool)

/-- A complete report becomes a response with a route for every token. -/
theorem vllmResponse_complete {inputIds : List Tok} {call : VllmCall Tok Lp}
    {routed : RoutedExperts}
    (h : Reports call.output (inputIds.length + call.generatedIds.length) routed) :
    ∃ output : GenerationOutput Tok Lp,
      vllmResponse returnRoutedExperts inputIds call = .ok output ∧
      output.outputIds = inputIds ++ call.generatedIds ++ call.padding ∧
      output.unpaddedSequenceLength = inputIds.length + call.generatedIds.length ∧
      ∃ paddedLength, inputIds.length + call.generatedIds.length ≤ paddedLength ∧
        output.routedExperts = some (routed.completed
          (inputIds.length + call.generatedIds.length) paddedLength) := by
  have hpadded : inputIds.length + call.generatedIds.length ≤
      (inputIds ++ call.generatedIds ++ call.padding).length := by simp
  obtain ⟨stats, halign⟩ := padAndAlign_complete h hpadded returnRoutedExperts true
  unfold vllmResponse
  simp only [halign, bind, Except.bind, Option.isNone_some, Bool.and_false, Bool.false_eq_true,
    ↓reduceIte, pure, Except.pure]
  exact ⟨_, rfl, rfl, rfl, _, hpadded, rfl⟩

/-- After a turn every token of its call but the last has its reported route. -/
theorem nativeTurn_spec {messageLog : List (RolloutMessage Tok Lp)} {turn : NativeTurn Tok Lp}
    {call : ReportedCall}
    (hlength : call.length = (logTokens messageLog).length + turn.call.generatedIds.length)
    (hreports : Reports turn.call.output call.length ⟨numMoeLayers, topk, call.rows⟩) :
    ∃ messageLog', nativeTurn decode returnRoutedExperts messageLog turn = .ok messageLog' ∧
      (logTokens messageLog').length = call.length + turn.observationIds.length ∧
      ∀ pos, pos < call.length - 1 → ∃ route, call.rows[pos]? = some route ∧
        (routeColumn messageLog')[pos]? = some (some route) := by
  obtain ⟨output, houtput, hids, hunpadded, paddedLength, hpadded, hrouted⟩ :=
    vllmResponse_complete returnRoutedExperts (hlength ▸ hreports)
  rw [← hlength] at hunpadded hpadded hrouted
  have hcover := hreports.length_completed hpadded
  obtain ⟨log, hlog, htokens, hcolumn, -⟩ :=
    appendResponse_routed decode true hids (hunpadded.trans hlength) hrouted (by omega)
  refine ⟨log ++ [observationMessage log turn.observationRole turn.observationContent
    turn.observationIds], ?_, ?_, ?_⟩
  · unfold nativeTurn
    simp only [houtput, hlog, bind, Except.bind, pure, Except.pure]
  · rw [logTokens_append, List.length_append, htokens, List.length_append, ← hlength]
    simp [logTokens, observationMessage]
  · intro pos hpos
    have hrows := hreports.length_take
    obtain ⟨route, hroute⟩ : ∃ route, call.rows[pos]? = some route :=
      ⟨_, List.getElem?_eq_getElem (by
        simp only [List.length_take] at hrows
        omega)⟩
    refine ⟨route, hroute, ?_⟩
    have htake : pos < ((RoutedExperts.completed ⟨numMoeLayers, topk, call.rows⟩ call.length
        paddedLength).rows.take output.unpaddedSequenceLength).length := by
      rw [List.length_take]
      omega
    rw [routeColumn_append, hcolumn, List.getElem?_append_left (by simpa using htake),
      List.getElem?_map, List.getElem?_take_of_lt (by omega), hreports.getElem?_completed hpos,
      hroute]
    rfl

/-- The calls of a rollout start behind the tokens before it. -/
theorem NativeReports.le_length :
    ∀ {turns : List (NativeTurn Tok Lp)} {calls : List ReportedCall} {inputLength : ℕ},
      NativeReports numMoeLayers topk inputLength turns calls →
      ∀ call ∈ calls, inputLength ≤ call.length := by
  intro turns
  induction turns with
  | nil =>
    intro calls _ h call hmem
    cases calls with
    | nil => cases hmem
    | cons _ _ => exact h.elim
  | cons turn turns ih =>
    intro calls _ h call hmem
    cases calls with
    | nil => exact h.elim
    | cons first calls =>
      obtain ⟨⟨-, hlength, -⟩, hrest⟩ := h
      rcases List.mem_cons.mp hmem with rfl | hmem
      · omega
      · have hle := ih hrest call hmem
        omega

/-- The calls of a rollout do not shrink, and the last one decides the routes. -/
theorem nativeRollout_spec :
    ∀ (turns : List (NativeTurn Tok Lp)) (calls : List ReportedCall)
      (messageLog : List (RolloutMessage Tok Lp)),
      NativeReports numMoeLayers topk (logTokens messageLog).length turns calls →
      ∃ messageLog', nativeRollout decode returnRoutedExperts messageLog turns =
          .ok messageLog' ∧
        (calls = [] ∨ ∃ last ∈ calls, (∀ call ∈ calls, call.length ≤ last.length) ∧
          ∀ pos, pos < last.length - 1 → ∃ route, last.rows[pos]? = some route ∧
            (routeColumn messageLog')[pos]? = some (some route)) := by
  intro turns
  induction turns with
  | nil =>
    intro calls messageLog h
    cases calls with
    | nil => exact ⟨messageLog, rfl, .inl rfl⟩
    | cons _ _ => exact h.elim
  | cons turn turns ih =>
    intro calls messageLog h
    cases calls with
    | nil => exact h.elim
    | cons call calls =>
      obtain ⟨⟨-, hlength, hreports⟩, hrest⟩ := h
      obtain ⟨log, hlog, htokens, hcolumn⟩ :=
        nativeTurn_spec decode returnRoutedExperts hlength hreports
      rw [← htokens] at hrest
      obtain ⟨final, hfinal, hcase⟩ := ih calls log hrest
      refine ⟨final, ?_, .inr ?_⟩
      · unfold nativeRollout at hfinal ⊢
        rw [List.foldlM_cons, hlog]
        exact hfinal
      · rcases hcase with rfl | ⟨last, hlast, hlongest, hroutes⟩
        · obtain rfl : final = log := by
            cases turns with
            | nil => exact (Except.ok.inj hfinal).symm
            | cons _ _ => exact hrest.elim
          refine ⟨call, List.mem_cons_self, fun call' hmem => ?_, hcolumn⟩
          obtain rfl : call' = call := by simpa using hmem
          exact le_refl _
        · refine ⟨last, List.mem_cons_of_mem _ hlast, fun call' hmem => ?_, hroutes⟩
          rcases List.mem_cons.mp hmem with rfl | hmem
          · have hle := hrest.le_length last hlast
            omega
          · exact hlongest call' hmem

/-- A rollout keeps the routes on their tokens. -/
theorem nativeRollout_routesKept {messageLog : List (RolloutMessage Tok Lp)}
    {turns : List (NativeTurn Tok Lp)} {calls : List ReportedCall}
    (h : NativeReports numMoeLayers topk (logTokens messageLog).length turns calls) :
    ∃ messageLog', nativeRollout decode returnRoutedExperts messageLog turns = .ok messageLog' ∧
      RoutesKept numMoeLayers topk calls (routeColumn messageLog') := by
  obtain ⟨final, hfinal, hcase⟩ :=
    nativeRollout_spec decode returnRoutedExperts turns calls messageLog h
  refine ⟨final, hfinal, RoutesKept.of_reported fun pos hbefore => ?_⟩
  obtain ⟨call, hcall, later, hlater, -, hlength⟩ := hbefore
  rcases hcase with rfl | ⟨last, hlast, hlongest, hroutes⟩
  · cases hcall
  · have hle := hlongest call hcall
    obtain ⟨route, hroute, hcolumn⟩ := hroutes pos (by omega)
    exact ⟨route, hcolumn, last, hlast, hroute⟩

end NemoRL.Experience
