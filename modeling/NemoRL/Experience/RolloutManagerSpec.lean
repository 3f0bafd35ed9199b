import NemoRL.Experience.RolloutManager
import NemoRL.Experience.RolloutsSpec
import Mathlib.Algebra.Order.BigOperators.Group.List

/-!
# Where the rollout manager does what it replaces

A turn of the manager is a turn of the rollout of single samples without routed experts. Both
raise without an environment for the task, and both stop when there is no message to generate
from. The manager leaves out the routes of a response, and it raises for a reward with several
components, which the other rollout adds up.

## Main definitions

* `SameRollouts` — the completions and metrics are those of the batch.
* `AgreeWhen` — the condition for it.

## Main results

* `turn_spec` — a turn of both rollouts.
* `runRollout_same_iff` — the completions of a prompt are those of a batch of its copies just
  under the condition.
-/

namespace NemoRL.Experience

open Lib Generation

variable {Tok Lp Info Stop F Acc : Type}

/-! ## Messages without routes -/

/-- A message without its routes. -/
def RolloutMessage.eraseRoutes (message : RolloutMessage Tok Lp) : RolloutMessage Tok Lp :=
  { message with routedExperts := none }

/-- Messages without their routes. -/
def eraseRoutes (messageLog : List (RolloutMessage Tok Lp)) : List (RolloutMessage Tok Lp) :=
  messageLog.map RolloutMessage.eraseRoutes

/-- No message has routes. -/
def NoRoutes (messageLog : List (RolloutMessage Tok Lp)) : Prop :=
  ∀ message ∈ messageLog, message.routedExperts = none

/-- No column of a message is longer than its tokens. -/
def ColumnsFit (messageLog : List (RolloutMessage Tok Lp)) : Prop :=
  ∀ message ∈ messageLog,
    (message.generationLogprobs.map List.length).getD 0 ≤ message.tokenIds.length ∧
      (message.routedExperts.map (·.rows.length)).getD 0 ≤ message.tokenIds.length

@[simp] theorem eraseRoutes_append (a b : List (RolloutMessage Tok Lp)) :
    eraseRoutes (a ++ b) = eraseRoutes a ++ eraseRoutes b := List.map_append ..

@[simp] theorem eraseRoutes_eq_nil {messageLog : List (RolloutMessage Tok Lp)} :
    eraseRoutes messageLog = [] ↔ messageLog = [] := List.map_eq_nil_iff

@[simp] theorem logTokens_eraseRoutes (messageLog : List (RolloutMessage Tok Lp)) :
    logTokens (eraseRoutes messageLog) = logTokens messageLog := by
  simp only [logTokens, eraseRoutes, List.flatMap_map]
  rfl

theorem noRoutes_eraseRoutes (messageLog : List (RolloutMessage Tok Lp)) :
    NoRoutes (eraseRoutes messageLog) := by
  intro message hmessage
  obtain ⟨m, -, rfl⟩ := List.mem_map.mp hmessage
  rfl

theorem eraseRoutes_eq_self {messageLog : List (RolloutMessage Tok Lp)} :
    eraseRoutes messageLog = messageLog ↔ NoRoutes messageLog := by
  constructor
  · intro h
    rw [← h]
    exact noRoutes_eraseRoutes messageLog
  · intro h
    have hsame : ∀ message ∈ messageLog, message.eraseRoutes = message := by
      intro message hmessage
      have hnone := h message hmessage
      cases message
      subst hnone
      rfl
    rw [eraseRoutes, List.map_congr_left hsame, List.map_id']

theorem noRoutes_append_singleton {messageLog : List (RolloutMessage Tok Lp)}
    {message : RolloutMessage Tok Lp} :
    NoRoutes (messageLog ++ [message]) ↔ NoRoutes messageLog ∧ message.routedExperts = none := by
  rw [NoRoutes, List.forall_mem_append, List.forall_mem_singleton]
  rfl

theorem columnsFit_append {a b : List (RolloutMessage Tok Lp)} :
    ColumnsFit (a ++ b) ↔ ColumnsFit a ∧ ColumnsFit b := List.forall_mem_append

theorem findRoutedExpertsTemplate_eq_none {messageLog : List (RolloutMessage Tok Lp)} :
    findRoutedExpertsTemplate messageLog = none ↔ NoRoutes messageLog := List.findSome?_eq_none_iff

/-- Messages whose columns fit are as long as their tokens. -/
theorem ColumnsFit.flatLength_eq {messageLog : List (RolloutMessage Tok Lp)}
    (h : ColumnsFit messageLog) :
    SampleRollout.flatLength messageLog = (logTokens messageLog).length := by
  have htokens : (logTokens messageLog).length =
      (messageLog.map fun message => message.tokenIds.length).sum := by
    simp [logTokens, List.length_flatMap]
  unfold SampleRollout.flatLength
  rw [htokens]
  refine max_eq_left (max_le ?_ ?_)
  · exact List.sum_le_sum fun message hmessage => (h message hmessage).1
  · exact List.sum_le_sum fun message hmessage => (h message hmessage).2

/-! ## Attached routes -/

theorem eraseRoutes_attach (routed : RoutedExperts) (messageLog : List (RolloutMessage Tok Lp))
    (cursor : ℕ) :
    eraseRoutes (attachRoutedExpertsToMessageLogPrefix routed cursor messageLog).1 =
        eraseRoutes messageLog ∧
      (attachRoutedExpertsToMessageLogPrefix routed cursor messageLog).2 =
        cursor + (logTokens messageLog).length := by
  induction messageLog generalizing cursor with
  | nil => exact ⟨rfl, rfl⟩
  | cons message messageLog ih =>
    obtain ⟨herase, hcursor⟩ := ih (cursor + message.tokenIds.length)
    constructor
    · simp only [attachRoutedExpertsToMessageLogPrefix, eraseRoutes, List.map_cons] at herase ⊢
      rw [herase]
      rfl
    · simp only [attachRoutedExpertsToMessageLogPrefix, hcursor, logTokens, List.flatMap_cons,
        List.length_append]
      omega

theorem ColumnsFit.attach {messageLog : List (RolloutMessage Tok Lp)} (h : ColumnsFit messageLog)
    (routed : RoutedExperts) (cursor : ℕ) :
    ColumnsFit (attachRoutedExpertsToMessageLogPrefix routed cursor messageLog).1 := by
  induction messageLog generalizing cursor with
  | nil => exact h
  | cons message messageLog ih =>
    have hrest : ColumnsFit messageLog := fun m hm => h m (List.mem_cons_of_mem _ hm)
    refine List.forall_mem_cons.mpr ⟨⟨(h message List.mem_cons_self).1, ?_⟩, ih hrest _⟩
    simp only [Option.map_some, Option.getD_some, sliceRoutes, slice, List.length_take]
    omega

/-! ## A response -/

/-- The message of a response, without routes. -/
def plainResponse (decode : List Tok → String) (inputLength : ℕ) (output : AsyncOutput Tok Lp) :
    RolloutMessage Tok Lp :=
  { role := "assistant"
    content := decode (slice output.outputIds inputLength output.unpaddedSequenceLength)
    tokenIds := slice output.outputIds inputLength output.unpaddedSequenceLength
    generationLogprobs := output.logprobs.map fun logprobs =>
      slice logprobs inputLength output.unpaddedSequenceLength }

theorem plainResponse_fits (decode : List Tok → String) (inputLength : ℕ)
    (output : AsyncOutput Tok Lp) (routes : Option RoutedExperts)
    (hroutes : (routes.map (·.rows.length)).getD 0 ≤
      output.unpaddedSequenceLength - inputLength) :
    ColumnsFit [{ plainResponse decode inputLength output with routedExperts := routes }] := by
  have hids : (slice output.outputIds inputLength output.unpaddedSequenceLength).length =
      output.unpaddedSequenceLength - inputLength := length_slice output.le_length
  refine List.forall_mem_singleton.mpr ⟨?_, by rwa [← hids] at hroutes⟩
  cases hlps : output.logprobs with
  | none => simp [plainResponse, hlps]
  | some lps =>
    have hlength : (slice lps inputLength output.unpaddedSequenceLength).length =
        output.unpaddedSequenceLength - inputLength := by
      refine length_slice ?_
      rw [output.length_logprobs lps hlps]
      exact output.le_length
    simp [plainResponse, hlps, hlength, hids]

/-- A response is appended to messages whose columns fit, and its routes are attached. -/
theorem appendResponse_spec (decode : List Tok → String)
    {messageLog : List (RolloutMessage Tok Lp)} (hfit : ColumnsFit messageLog)
    (output : AsyncOutput Tok Lp) :
    ∃ messageLog', appendResponse decode true messageLog (logTokens messageLog).length
        output.toGenerationOutput = .ok messageLog' ∧
      eraseRoutes messageLog' = eraseRoutes messageLog ++
        [plainResponse decode (logTokens messageLog).length output] ∧
      ColumnsFit messageLog' ∧
      (NoRoutes messageLog' ↔ NoRoutes messageLog ∧ output.routedExperts = none) := by
  unfold appendResponse
  cases hrouted : output.routedExperts with
  | none =>
    refine ⟨_, rfl, by rw [eraseRoutes_append]; rfl, columnsFit_append.mpr ⟨hfit, ?_⟩, ?_⟩
    · exact plainResponse_fits decode _ output none (Nat.zero_le _)
    · simp only [noRoutes_append_singleton]
  | some routed =>
    obtain ⟨herase, hcursor⟩ := eraseRoutes_attach routed messageLog 0
    rw [Nat.zero_add] at hcursor
    simp only [hcursor, ne_eq, not_true_eq_false, if_false]
    refine ⟨_, rfl, ?_, columnsFit_append.mpr ⟨hfit.attach routed 0, ?_⟩, ?_⟩
    · rw [eraseRoutes_append, herase]
      rfl
    · refine plainResponse_fits decode _ output (some (sliceRoutes routed _ _)) ?_
      simp only [Option.map_some, Option.getD_some, sliceRoutes, slice, List.length_take]
      exact Nat.min_le_left _ _
    · rw [noRoutes_append_singleton]
      simp

section Environments
variable {I : AsyncInterfaces Tok Lp Info Stop F Acc}

theorem stepEnvironment_none {taskName : String} (h : I.taskToEnv taskName = none)
    (state : TurnState Tok Lp Info Stop Acc) :
    ∃ e, stepEnvironment I taskName state = .error e := by
  refine ⟨⟨.valueError, s!"No environment found for task type: {taskName}"⟩, ?_⟩
  simp [stepEnvironment, calculateRewards, taskGroups, addToGroup, stepGroup, h, bind, Except.bind]

/-- What an environment returns depends on the roles and contents of the messages. -/
theorem stepEnvironment_some {taskName : String} {env : Environment Info Stop F}
    (h : I.taskToEnv taskName = some env) (state : TurnState Tok Lp Info Stop Acc) :
    stepEnvironment I taskName state =
      .ok (env.step (state.messageLog.map fun m => (m.role, m.content)) state.extraEnvInfo) := by
  let taskToEnv := fun taskName => (I.taskToEnv taskName).map Environment.step
  let sample : Sample Tok Info Stop Acc :=
    { messageLog := state.messageLog.map fun message =>
        ⟨message.role, message.content, message.tokenIds⟩
      extraEnvInfo := state.extraEnvInfo
      taskName := taskName
      stopStrings := state.stopStrings
      totalReward := state.totalReward
      truncated := state.truncated }
  let envs : String → List (String × String) → Info → EnvironmentReturn Info Stop (Reward F) :=
    fun _ => env.step
  have hserved : ∀ s ∈ [sample], taskToEnv s.taskName = some (envs s.taskName) := by
    simp [sample, taskToEnv, envs, h]
  have hrewards := calculateRewards_eq hserved
  unfold stepEnvironment
  simp only [sample, taskToEnv] at hrewards
  simp only [hrewards, bind, Except.bind, List.map_cons, pure, Except.pure, outcome, toEnv,
    List.map_map]
  rfl

end Environments

/-! ## A turn -/

/-- A reward without components, or with one. -/
def Environment.Single (env : Environment Info Stop F) : Prop :=
  env.numComponents = none ∨ env.numComponents = some 1

namespace SampleRollout
variable [Add F] [Zero Acc] [Add Acc] {I : AsyncInterfaces Tok Lp Info Stop F Acc}

/-- A state that can take a turn in an environment. -/
structure State.Ready (env : Environment Info Stop F) (state : State Tok Lp Info Stop Acc) :
    Prop where
  messageLog_ne : state.messageLog ≠ []
  columnsFit : ColumnsFit state.messageLog
  rewardAccList : state.rewardAccList = [] ∨
    some state.rewardAccList.length = env.numComponents

/-- A state of the manager: without routes, and without the rewards of every component. -/
def State.withoutRoutes (state : State Tok Lp Info Stop Acc) : TurnState Tok Lp Info Stop Acc :=
  { state.toTurnState with messageLog := eraseRoutes state.messageLog }

/-- A reward of an environment is added, and its only component is its number. -/
theorem addReward_spec (I : AsyncInterfaces Tok Lp Info Stop F Acc)
    {env : Environment Info Stop F} (hcomponents : env.numComponents ≠ some 0)
    (state : State Tok Lp Info Stop Acc)
    (hacc : state.rewardAccList = [] ∨ some state.rewardAccList.length = env.numComponents)
    {reward : Reward F} (hreward : reward.numComponents = env.numComponents) :
    ∃ total acc seen, State.addReward I state reward = .ok
        { state with totalReward := total, rewardAccList := acc, multiRewardSeen := seen } ∧
      (acc = [] ∨ some acc.length = env.numComponents) ∧
      (env.Single → ∃ number, reward.item I.item = .ok number ∧
        total = state.totalReward + number) := by
  cases reward with
  | scalar r =>
    exact ⟨_, _, _, rfl, hacc, fun _ => ⟨I.item r, rfl, rfl⟩⟩
  | components rewards =>
    cases rewards with
    | nil => exact absurd hreward.symm hcomponents
    | cons r rest =>
      have hlength : env.numComponents = some (rest.length + 1) := hreward.symm
      have hle : ¬ (if state.rewardAccList.isEmpty then List.replicate (r :: rest).length 0
          else state.rewardAccList).length < (r :: rest).length := by
        rcases hacc with hnil | hlen
        · simp [hnil]
        · rw [hlength, Option.some.injEq] at hlen
          split <;> simp [hlen]
      simp only [State.addReward, hle, if_false]
      refine ⟨_, _, _, rfl, .inr ?_, ?_⟩
      · rw [List.length_mapIdx, hlength, Option.some.injEq]
        rcases hacc with hnil | hlen
        · simp [hnil]
        · rw [hlength, Option.some.injEq] at hlen
          split <;> simp [hlen]
      · intro hsingle
        have hnil : rest = [] := by
          rcases hsingle with hnone | hone
          · rw [hlength] at hnone
            exact nomatch hnone
          · rw [hlength, Option.some.injEq] at hone
            exact List.length_eq_zero_iff.mp (by omega)
        subst hnil
        exact ⟨I.item r, rfl, rfl⟩

omit [Add F] [Zero Acc] [Add Acc] in
/-- A response is generated from all tokens, and its message is appended. -/
theorem asyncGenerateResponse_spec (I : AsyncInterfaces Tok Lp Info Stop F Acc)
    (state : TurnState Tok Lp Info Stop Acc) (hne : state.messageLog ≠ [])
    (hfit : ColumnsFit state.messageLog) :
    let inputLength := (logTokens state.messageLog).length
    let output := I.generateAsync (logTokens state.messageLog) state.stopStrings
    let message := plainResponse I.decode inputLength output
    ∃ messageLog', asyncGenerateResponseForSampleTurn I state =
        .ok (state.takeResponse messageLog' message.tokenIds.length inputLength output,
          message.tokenIds.length, inputLength) ∧
      eraseRoutes messageLog' = eraseRoutes state.messageLog ++ [message] ∧
      ColumnsFit messageLog' ∧
      (NoRoutes messageLog' ↔ NoRoutes state.messageLog ∧ output.routedExperts = none) := by
  intro inputLength output message
  obtain ⟨messageLog', happend, herase, hfit', hroutes⟩ :=
    appendResponse_spec I.decode hfit output
  refine ⟨messageLog', ?_, herase, hfit', hroutes⟩
  have hempty : state.messageLog.isEmpty = false := List.isEmpty_eq_false_iff.mpr hne
  unfold asyncGenerateResponseForSampleTurn
  simp only [hempty, Bool.false_eq_true, if_false, hfit.flatLength_eq, Nat.sub_self,
    List.replicate_zero, List.append_nil]
  simp only [output] at happend
  rw [happend]
  rfl

end SampleRollout

/-- An observation is that of the manager but for its routes, which it has behind others. -/
theorem observationMessage_spec {messageLog : List (RolloutMessage Tok Lp)}
    (hfit : ColumnsFit messageLog) (role content : String) (tokenIds : List Tok) :
    let message := observationMessage messageLog role content tokenIds
    eraseRoutes (messageLog ++ [message]) = eraseRoutes messageLog ++
        [{ role := role, content := content, tokenIds := tokenIds }] ∧
      ColumnsFit (messageLog ++ [message]) ∧
      (NoRoutes (messageLog ++ [message]) ↔ NoRoutes messageLog) := by
  intro message
  refine ⟨by rw [eraseRoutes_append]; rfl, columnsFit_append.mpr ⟨hfit, ?_⟩, ?_⟩
  · refine List.forall_mem_singleton.mpr ⟨Nat.zero_le _, ?_⟩
    cases htemplate : findRoutedExpertsTemplate messageLog with
    | none => simp [message, observationMessage, htemplate]
    | some template =>
      simp [message, observationMessage, htemplate, dummyRoutedExpertsForTokens]
  · rw [noRoutes_append_singleton, ← findRoutedExpertsTemplate_eq_none]
    simp [message, observationMessage]

/-- The manager generates a response from all tokens. -/
theorem AsyncRolloutImpl.generateResponse_eq {I : AsyncInterfaces Tok Lp Info Stop F Acc}
    {messageLog : List (RolloutMessage Tok Lp)} (hne : messageLog ≠ [])
    (stopStrings : Option Stop) :
    generateResponse I messageLog stopStrings =
      .ok ⟨plainResponse I.decode (logTokens messageLog).length
        (I.generateAsync (logTokens messageLog) stopStrings), (logTokens messageLog).length,
        I.generateAsync (logTokens messageLog) stopStrings⟩ := by
  have hempty : messageLog.isEmpty = false := List.isEmpty_eq_false_iff.mpr hne
  simp only [generateResponse, hempty, Bool.false_eq_true, if_false]
  rfl

/-- A turn of the manager with a reward that has a number. -/
theorem AsyncRolloutImpl.turn_eq [Add Acc] {I : AsyncInterfaces Tok Lp Info Stop F Acc}
    (maxSeqLen : ℕ) {taskName : String} {env : Environment Info Stop F}
    (henv : I.taskToEnv taskName = some env) {state : TurnState Tok Lp Info Stop Acc}
    (hne : state.messageLog ≠ []) (number : Acc) :
    let inputLength := (logTokens state.messageLog).length
    let output := I.generateAsync (logTokens state.messageLog) state.stopStrings
    let message := plainResponse I.decode inputLength output
    let messageLog := state.messageLog ++ [message]
    let envOutput := env.step (messageLog.map fun m => (m.role, m.content)) state.extraEnvInfo
    let responded := { state with counts := state.counts.begin }.takeResponse messageLog
      message.tokenIds.length inputLength output
    envOutput.reward.item I.item = .ok number →
      turn I maxSeqLen taskName state =
        .ok (responded.takeObservation I maxSeqLen inputLength message.tokenIds.length envOutput
          (state.totalReward + number) fun tokenizedObs =>
            { role := envOutput.observationRole, content := envOutput.observationContent,
              tokenIds := tokenizedObs }, false) := by
  intro inputLength output message messageLog envOutput responded hnumber
  have hstep : stepEnvironment I taskName responded = .ok envOutput :=
    stepEnvironment_some henv responded
  simp only [turn, generateResponse_eq hne, bind, Except.bind, pure, Except.pure]
  rw [hstep]
  simp only [hnumber]
  rfl

namespace SampleRollout
variable [Add F] [Zero Acc] [Add Acc] {I : AsyncInterfaces Tok Lp Info Stop F Acc}

/-- A turn returns, and what becomes of it. With rewards of one component the manager takes the
same turn without routes. -/
theorem turn_spec (maxSeqLen : ℕ) {taskName : String} {env : Environment Info Stop F}
    (henv : I.taskToEnv taskName = some env) (hcomponents : env.numComponents ≠ some 0)
    {state : State Tok Lp Info Stop Acc} (hready : state.Ready env) :
    ∃ state', turn I maxSeqLen taskName state = .ok (state', false) ∧ state'.Ready env ∧
      state'.counts.turnCount = state.counts.turnCount + 1 ∧
      (NoRoutes state'.messageLog ↔ NoRoutes state.messageLog ∧
        (I.generateAsync (logTokens state.messageLog) state.stopStrings).routedExperts = none) ∧
      (env.Single → AsyncRolloutImpl.turn I maxSeqLen taskName state.withoutRoutes =
        .ok (state'.withoutRoutes, false)) := by
  let begun : State Tok Lp Info Stop Acc := { state with counts := state.counts.begin }
  obtain ⟨messageLog', hgenerate, herase, hfit, hroutes⟩ :=
    asyncGenerateResponse_spec I begun.toTurnState hready.messageLog_ne hready.columnsFit
  let inputLength := (logTokens state.messageLog).length
  let output := I.generateAsync (logTokens state.messageLog) state.stopStrings
  let message := plainResponse I.decode inputLength output
  let responded := begun.toTurnState.takeResponse messageLog' message.tokenIds.length inputLength
    output
  let envOutput := env.step (messageLog'.map fun m => (m.role, m.content)) state.extraEnvInfo
  obtain ⟨total, acc, seen, hreward, hacc, hsingle⟩ :=
    addReward_spec I hcomponents { begun with toTurnState := responded } hready.rewardAccList
      (env.numComponents_step
        (messageLog'.map fun m => (m.role, m.content)) state.extraEnvInfo)
  have hstep : stepEnvironment I taskName responded = .ok envOutput :=
    stepEnvironment_some henv responded
  let cut := cutObservation maxSeqLen inputLength message.tokenIds.length
    (I.tokenizer envOutput.observationContent)
  obtain ⟨heraseObs, hfitObs, hroutesObs⟩ := observationMessage_spec hfit
    envOutput.observationRole envOutput.observationContent cut.1
  let rewarded : TurnState Tok Lp Info Stop Acc := { responded with totalReward := total }
  let observed := rewarded.takeObservation I maxSeqLen inputLength message.tokenIds.length
    envOutput total (observationMessage messageLog' envOutput.observationRole
      envOutput.observationContent)
  refine ⟨⟨observed, acc, seen⟩, ?_, ⟨?_, hfitObs, hacc⟩, rfl, ?_, ?_⟩
  · simp only [turn]
    rw [hgenerate]
    simp only [bind, Except.bind, pure, Except.pure]
    rw [hstep]
    simp only
    rw [hreward]
    rfl
  · exact List.append_ne_nil_of_right_ne_nil _ (List.cons_ne_nil _ _)
  · exact hroutesObs.trans hroutes
  · intro hone
    obtain ⟨number, hnumber, htotal⟩ := hsingle hone
    have hmessages : (eraseRoutes messageLog').map (fun m => (m.role, m.content)) =
        messageLog'.map fun m => (m.role, m.content) := by
      rw [eraseRoutes, List.map_map]
      rfl
    have hplain : state.withoutRoutes.messageLog ++ [plainResponse I.decode
        (logTokens state.withoutRoutes.messageLog).length
        (I.generateAsync (logTokens state.withoutRoutes.messageLog)
          state.withoutRoutes.stopStrings)] = eraseRoutes messageLog' := by
      rw [herase]
      simp only [State.withoutRoutes, logTokens_eraseRoutes]
      rfl
    have hne : state.withoutRoutes.messageLog ≠ [] := by
      simpa [State.withoutRoutes] using hready.messageLog_ne
    have hlog : (State.mk observed acc seen).messageLog = messageLog' ++
        [observationMessage messageLog' envOutput.observationRole envOutput.observationContent
          cut.1] := rfl
    have hturn := AsyncRolloutImpl.turn_eq maxSeqLen henv hne number (by
      rw [hplain, hmessages]
      exact hnumber)
    have hsum : state.withoutRoutes.totalReward + number = total := htotal.symm
    have htokens : logTokens state.withoutRoutes.messageLog = logTokens state.messageLog :=
      logTokens_eraseRoutes _
    rw [hturn, hplain, hmessages, hsum, htokens]
    refine congrArg (fun s => Except.ok (s, false)) ?_
    rw [State.withoutRoutes, State.withoutRoutes, hlog, heraseObs]
    rfl

end SampleRollout

/-! ### Turns that end a rollout -/

section Ends
variable {I : AsyncInterfaces Tok Lp Info Stop F Acc} {maxSeqLen : ℕ} {taskName : String}

/-- Without a message a turn ends the rollout of a sample. -/
theorem SampleRollout.turn_empty [Add F] [Zero Acc] [Add Acc]
    {state : SampleRollout.State Tok Lp Info Stop Acc} (h : state.messageLog = []) :
    SampleRollout.turn I maxSeqLen taskName state =
      .ok ({ state with counts := state.counts.begin }, true) := by
  simp [SampleRollout.turn, asyncGenerateResponseForSampleTurn, h]

/-- Without a message a turn ends the rollout of the manager. -/
theorem AsyncRolloutImpl.turn_empty [Add Acc] {state : TurnState Tok Lp Info Stop Acc}
    (h : state.messageLog = []) :
    AsyncRolloutImpl.turn I maxSeqLen taskName state =
      .ok ({ state with counts := state.counts.begin }, true) := by
  simp [AsyncRolloutImpl.turn, generateResponse, h]

/-- A tensor that has not one element has no number. -/
theorem Reward.item_raises {reward : Reward F} (hnone : reward.numComponents ≠ none)
    (hone : reward.numComponents ≠ some 1) (number : F → Acc) :
    ∃ e, reward.item number = .error e := by
  cases reward with
  | scalar r => exact absurd rfl hnone
  | components rewards =>
    cases rewards with
    | nil => exact ⟨_, rfl⟩
    | cons r rest =>
      cases rest with
      | nil => exact absurd rfl hone
      | cons r' rest => exact ⟨_, rfl⟩

/-- The environment of a task is missing, or satisfies a property. -/
def MissingOr (I : AsyncInterfaces Tok Lp Info Stop F Acc) (taskName : String)
    (P : Environment Info Stop F → Prop) : Prop :=
  I.taskToEnv taskName = none ∨ ∃ env, I.taskToEnv taskName = some env ∧ P env

/-- A reward without components cannot be added. -/
theorem SampleRollout.addReward_raises [Add F] [Zero Acc] [Add Acc] {reward : Reward F}
    (h : reward.numComponents = some 0) (state : SampleRollout.State Tok Lp Info Stop Acc) :
    ∃ e, SampleRollout.State.addReward I state reward = .error e := by
  cases reward with
  | scalar r => exact nomatch h
  | components rewards =>
    have hnil : rewards = [] := List.length_eq_zero_iff.mp (Option.some.inj h)
    subst hnil
    exact ⟨_, rfl⟩

/-- A sample raises without an environment, and for rewards without components. -/
theorem SampleRollout.turn_raises [Add F] [Zero Acc] [Add Acc] (maxSeqLen : ℕ)
    (state : SampleRollout.State Tok Lp Info Stop Acc) (hne : state.messageLog ≠ [])
    (hfit : ColumnsFit state.messageLog)
    (h : MissingOr I taskName fun env => env.numComponents = some 0) :
    ∃ e, SampleRollout.turn I maxSeqLen taskName state = .error e := by
  let begun : TurnState Tok Lp Info Stop Acc :=
    { state.toTurnState with counts := state.counts.begin }
  have hbegun : begun.messageLog ≠ [] := hne
  obtain ⟨messageLog', hgenerate, -⟩ := asyncGenerateResponse_spec I begun hbegun hfit
  simp only [SampleRollout.turn]
  rw [hgenerate]
  simp only [bind, Except.bind]
  rcases h with hnone | ⟨env, henv, hzero⟩
  · obtain ⟨e, hstep⟩ := stepEnvironment_none hnone (begun.takeResponse messageLog' _ _ _)
    rw [hstep]
    exact ⟨e, rfl⟩
  · rw [stepEnvironment_some henv]
    obtain ⟨e, hadd⟩ := addReward_raises
      ((env.numComponents_step _ _).trans hzero) (I := I)
      { state with toTurnState := begun.takeResponse messageLog' _ _ _ }
    exact ⟨e, by simp only; rw [hadd]⟩

/-- The manager raises without an environment, and for rewards that have not one component. -/
theorem AsyncRolloutImpl.turn_raises [Add Acc] (maxSeqLen : ℕ)
    {state : TurnState Tok Lp Info Stop Acc}
    (hne : state.messageLog ≠ []) (h : MissingOr I taskName fun env => ¬ env.Single) :
    ∃ e, AsyncRolloutImpl.turn I maxSeqLen taskName state = .error e := by
  simp only [AsyncRolloutImpl.turn, generateResponse_eq hne, bind, Except.bind]
  rcases h with hnone | ⟨env, henv, hmany⟩
  · obtain ⟨e, hstep⟩ := stepEnvironment_none hnone ({ state with
      counts := state.counts.begin }.takeResponse (state.messageLog ++ [plainResponse I.decode
        (logTokens state.messageLog).length
        (I.generateAsync (logTokens state.messageLog) state.stopStrings)]) _ _ _)
    rw [hstep]
    exact ⟨e, rfl⟩
  · rw [stepEnvironment_some henv]
    obtain ⟨hnone, hone⟩ := not_or.mp hmany
    obtain ⟨e, hitem⟩ := Reward.item_raises
      (fun h => hnone ((env.numComponents_step _ _).symm.trans h))
      (fun h => hone ((env.numComponents_step _ _).symm.trans h)) I.item
    exact ⟨e, by simp only; rw [hitem]⟩

end Ends

namespace SampleRollout
variable [Add F] [Zero Acc] [Add Acc] {I : AsyncInterfaces Tok Lp Info Stop F Acc}

/-! ## All turns -/

/-- The turns of a sample, and those of the manager. -/
theorem loop_spec (maxSeqLen : ℕ) {taskName : String} {env : Environment Info Stop F}
    (henv : I.taskToEnv taskName = some env) (hcomponents : env.numComponents ≠ some 0)
    (state : State Tok Lp Info Stop Acc) (hready : state.Ready env) (n : ℕ) :
    ∃ state' left, loop I maxSeqLen taskName n state = .ok (state', left) ∧
      (left = false ↔ state'.counts.turnCount ≥ state.counts.turnCount + n) ∧
      (NoRoutes state'.messageLog ↔ NoRoutes state.messageLog ∧
        ∀ reached, BreakVisits (fun s => s.done) (turn I maxSeqLen taskName) n state reached →
          (I.generateAsync (logTokens reached.messageLog) reached.stopStrings).routedExperts =
            none) ∧
      (env.Single → AsyncRolloutImpl.loop I maxSeqLen taskName n state.withoutRoutes =
        .ok (state'.withoutRoutes, left)) := by
  obtain ⟨state', left, hloop, -, hroutes⟩ := breakLoop_iff_visits
    (fun s : State Tok Lp Info Stop Acc => NoRoutes s.messageLog)
    (fun s => (I.generateAsync (logTokens s.messageLog) s.stopStrings).routedExperts = none)
    (fun s hs _ => by
      obtain ⟨s', hturn, hs', -, hiff, -⟩ := turn_spec maxSeqLen henv hcomponents hs
      exact ⟨s', hturn, hs', hiff⟩) n hready
  have hcount := breakLoop_count (fun s : State Tok Lp Info Stop Acc => s.counts.turnCount)
    (fun s hs _ => by
      obtain ⟨s', hturn, hs', hnext, -⟩ := turn_spec maxSeqLen henv hcomponents hs
      exact ⟨s', hturn, hs', hnext⟩) n hready hloop
  refine ⟨state', left, hloop, ⟨fun h => (hcount.1.mp h).ge, fun h => ?_⟩, hroutes, ?_⟩
  · exact hcount.1.mpr (le_antisymm hcount.2 h)
  · intro hsingle
    let R : State Tok Lp Info Stop Acc → TurnState Tok Lp Info Stop Acc → Prop :=
      fun s t => s.Ready env ∧ t = s.withoutRoutes
    have hdone : ∀ s t, R s t → s.done = t.done := by
      rintro s t ⟨-, rfl⟩
      rfl
    have hstep : ∀ s t, R s t → s.done = false →
        ResultRel (fun p q => R p.1 q.1 ∧ p.2 = q.2) (turn I maxSeqLen taskName s)
          (AsyncRolloutImpl.turn I maxSeqLen taskName t) := by
      rintro s t ⟨hs, rfl⟩ -
      obtain ⟨s', hturn, hs', -, -, hsame⟩ := turn_spec maxSeqLen henv hcomponents hs
      rw [hturn, hsame hsingle]
      exact .returned ⟨⟨hs', rfl⟩, rfl⟩
    have hrel := breakLoop_rel R hdone hstep n ⟨hready, rfl⟩
    change ResultRel _ (loop I maxSeqLen taskName n state)
      (AsyncRolloutImpl.loop I maxSeqLen taskName n state.withoutRoutes) at hrel
    rw [show loop I maxSeqLen taskName n state = _ from hloop] at hrel
    cases hmanager : AsyncRolloutImpl.loop I maxSeqLen taskName n state.withoutRoutes with
    | error e =>
      rw [hmanager] at hrel
      exact nomatch hrel
    | ok q =>
      rw [hmanager] at hrel
      cases hrel with
      | returned h =>
        obtain ⟨⟨-, hstate⟩, hleft⟩ := h
        exact congrArg Except.ok (Prod.ext hstate hleft.symm)

end SampleRollout

/-! ## Completions of a prompt -/

section Completions
variable [Add F] [Zero Acc] [Add Acc] (I : AsyncInterfaces Tok Lp Info Stop F Acc)
  (maxSeqLen : ℕ) (datum : Datum Tok Info Stop)

/-- Both raise, or both return the same: messages, rewards as tensors, whether samples were
truncated, and the metrics of turns and tokens. -/
def SameRollouts : Except PyError (List (AsyncRolloutImpl.Completion Tok Lp Info Acc) ×
      RolloutMetrics) →
    Except PyError (List (SampleRollout.FinalSample Tok Lp Info Stop F) × RolloutMetrics) → Prop
  | .error _, .error _ => True
  | .ok (completions, metrics), .ok (samples, metrics') =>
    completions.map (fun c => (c.messageLog, I.tensor c.reward, c.truncated)) =
        samples.map (fun s => (s.messageLog, s.totalReward, s.truncated)) ∧
      metrics = metrics'
  | _, _ => False

/-- The condition for the completions of a prompt. There is a message to generate from, or more
than one turn is allowed; and when the environment is asked, its rewards are numbers or have one
component, and no output of the generator on the way has routes. -/
structure AgreeWhen (maxRolloutTurns : ℕ) : Prop where
  empty_prompt : datum.messageLog = [] → maxRolloutTurns ≠ 1
  single : ∀ env, datum.messageLog ≠ [] → 0 < maxRolloutTurns →
    I.taskToEnv datum.taskName = some env → env.numComponents ≠ some 0 → env.Single
  no_routes : ∀ env reached, I.taskToEnv datum.taskName = some env →
    env.numComponents ≠ some 0 → datum.messageLog ≠ [] →
    BreakVisits (fun s => s.done) (SampleRollout.turn I maxSeqLen datum.taskName) maxRolloutTurns
      ⟨TurnState.ofDatum datum, [], false⟩ reached →
    (I.generateAsync (logTokens reached.messageLog) reached.stopStrings).routedExperts = none

/-! ### Batches of equal samples -/

variable {I maxSeqLen datum} {n maxRolloutTurns : ℕ}

omit [Zero Acc] [Add Acc] in
/-- The metrics of at least one completion are those of a batch. -/
theorem aggregateRolloutMetrics_eq {samples : List (SampleMetrics Acc)} (hne : samples ≠ []) :
    AsyncRolloutImpl.aggregateRolloutMetrics samples =
      .ok (SampleRollout.rolloutMetrics samples) := by
  have hpos : ¬ samples.length = 0 := fun h => hne (List.length_eq_zero_iff.mp h)
  simp only [AsyncRolloutImpl.aggregateRolloutMetrics, hpos, if_false]
  rfl

omit [Add F] in
theorem runRollout_ok {state : TurnState Tok Lp Info Stop Acc} {left : Bool} (hn : 0 < n)
    (h : AsyncRolloutImpl.loop I maxSeqLen datum.taskName maxRolloutTurns
      (TurnState.ofDatum datum) = .ok (state, left)) :
    AsyncRolloutImpl.runRollout I maxSeqLen datum n maxRolloutTurns =
      .ok (List.replicate n (AsyncRolloutImpl.completion state),
        SampleRollout.rolloutMetrics
          (List.replicate n (AsyncRolloutImpl.sampleMetrics state left))) := by
  have hsingle : ∀ i ∈ List.range n,
      (fun _ => AsyncRolloutImpl.runSingleRollout I maxSeqLen datum maxRolloutTurns) i =
        .ok ((fun _ => (AsyncRolloutImpl.completion state,
          AsyncRolloutImpl.sampleMetrics state left)) i) := by
    intro i _
    simp only [AsyncRolloutImpl.runSingleRollout, h, bind, Except.bind, pure, Except.pure]
  have hresults := mapM_of_forall hsingle
  rw [List.map_const', List.length_range] at hresults
  have hne : List.replicate n (AsyncRolloutImpl.sampleMetrics state left) ≠ [] := by
    simpa using hn.ne'
  simp only [AsyncRolloutImpl.runRollout, hresults, bind, Except.bind, pure, Except.pure,
    List.map_replicate, aggregateRolloutMetrics_eq hne]

omit [Add F] in
theorem runRollout_raises (maxRolloutTurns : ℕ) (hn : 0 < n)
    (h : ∃ e, AsyncRolloutImpl.loop I maxSeqLen datum.taskName maxRolloutTurns
      (TurnState.ofDatum datum) = .error e) :
    ∃ e, AsyncRolloutImpl.runRollout I maxSeqLen datum n maxRolloutTurns = .error e := by
  obtain ⟨e, h⟩ := h
  obtain ⟨e', hmap⟩ := mapM_raises (f := fun _ => AsyncRolloutImpl.runSingleRollout I maxSeqLen
    datum maxRolloutTurns) (List.mem_range.mpr hn)
    ⟨e, by simp only [AsyncRolloutImpl.runSingleRollout, h, bind, Except.bind]⟩
  exact ⟨e', by simp only [AsyncRolloutImpl.runRollout, hmap, bind, Except.bind]⟩

theorem runAsync_ok {state : SampleRollout.State Tok Lp Info Stop Acc} {left : Bool} (hn : 0 < n)
    (h : SampleRollout.loop I maxSeqLen datum.taskName maxRolloutTurns
      ⟨TurnState.ofDatum datum, [], false⟩ = .ok (state, left)) :
    SampleRollout.runAsyncMultiTurnRollout I maxSeqLen (List.replicate n datum) maxRolloutTurns =
      .ok ((List.range n).map fun i => state.finalSample I i datum.taskName,
        SampleRollout.rolloutMetrics (List.replicate n (state.sampleMetrics maxRolloutTurns))) := by
  have hsample : ∀ p ∈ (List.replicate n datum).zipIdx,
      SampleRollout.runSingleSampleWithErrorHandling I maxSeqLen maxRolloutTurns p =
        .ok (state.finalSample I p.2 datum.taskName, state.sampleMetrics maxRolloutTurns) := by
    intro p hp
    have hp1 : p.1 = datum := List.eq_of_mem_replicate (List.fst_mem_of_mem_zipIdx hp)
    simp only [SampleRollout.runSingleSampleWithErrorHandling,
      SampleRollout.runSampleMultiTurnRollout, hp1, h, bind, Except.bind, pure, Except.pure]
  have hresults := mapM_of_forall hsample
  have hzip : ((List.replicate n datum).zipIdx.map fun p =>
      (state.finalSample I p.2 datum.taskName, state.sampleMetrics maxRolloutTurns)) =
      (List.range n).map fun i =>
        (state.finalSample I i datum.taskName, state.sampleMetrics maxRolloutTurns) := by
    apply List.ext_getElem (by simp)
    intro i h₁ h₂
    simp
  rw [hzip] at hresults
  have hne : ((List.range n).map fun i => (state.finalSample I i datum.taskName,
      state.sampleMetrics maxRolloutTurns)).isEmpty = false := by
    rw [List.isEmpty_eq_false_iff, ← List.length_pos_iff]
    simpa using hn
  simp only [SampleRollout.runAsyncMultiTurnRollout, hresults, hne, bind, Except.bind, pure,
    Except.pure, List.map_map, Bool.false_eq_true, if_false]
  rw [show Prod.snd ∘ (fun i => (state.finalSample I i datum.taskName,
    state.sampleMetrics maxRolloutTurns)) = fun _ => state.sampleMetrics maxRolloutTurns from rfl,
    List.map_const', List.length_range]
  rfl

theorem runAsync_raises (maxRolloutTurns : ℕ) (hn : 0 < n)
    (h : ∃ e, SampleRollout.loop I maxSeqLen datum.taskName maxRolloutTurns
      ⟨TurnState.ofDatum datum, [], false⟩ = .error e) :
    ∃ e, SampleRollout.runAsyncMultiTurnRollout I maxSeqLen (List.replicate n datum)
      maxRolloutTurns = .error e := by
  obtain ⟨e, h⟩ := h
  have hmem : (datum, 0) ∈ (List.replicate n datum).zipIdx := by
    obtain ⟨m, rfl⟩ := Nat.exists_eq_succ_of_ne_zero hn.ne'
    simp [List.replicate_succ]
  obtain ⟨e', hmap⟩ := mapM_raises hmem
    (f := SampleRollout.runSingleSampleWithErrorHandling I maxSeqLen maxRolloutTurns)
    ⟨⟨.runtimeError, s!"Error in sample {0} rollout: {e.message}"⟩, by
      simp only [SampleRollout.runSingleSampleWithErrorHandling,
        SampleRollout.runSampleMultiTurnRollout, h, bind, Except.bind]⟩
  exact ⟨e', by simp only [SampleRollout.runAsyncMultiTurnRollout, hmap, bind, Except.bind]⟩

omit [Add F] [Zero Acc] [Add Acc] in
/-- The metrics of equal samples tell whether all turns were taken. -/
theorem rolloutMetrics_replicate_iff (hn : 0 < n)
    (legacy : SampleRollout.State Tok Lp Info Stop Acc) (left : Bool) :
    SampleRollout.rolloutMetrics
        (List.replicate n (AsyncRolloutImpl.sampleMetrics legacy.withoutRoutes left)) =
      SampleRollout.rolloutMetrics (List.replicate n (legacy.sampleMetrics maxRolloutTurns)) ↔
    (left = false ↔ legacy.counts.turnCount ≥ maxRolloutTurns) := by
  have hflags : (!left) = decide (legacy.counts.turnCount ≥ maxRolloutTurns) ↔
      (left = false ↔ legacy.counts.turnCount ≥ maxRolloutTurns) := by
    rw [Bool.eq_iff_iff, Bool.not_eq_true', decide_eq_true_iff]
  rw [← hflags]
  constructor
  · intro h
    have hrate := congrArg RolloutMetrics.maxTurnsReachedRate h
    have hpos : (n : ℚ) ≠ 0 := Nat.cast_ne_zero.mpr hn.ne'
    simp only [SampleRollout.rolloutMetrics, List.length_replicate, List.countP_replicate,
      div_left_inj' hpos, Nat.cast_inj, AsyncRolloutImpl.sampleMetrics,
      SampleRollout.State.sampleMetrics] at hrate
    revert hrate
    cases left <;> cases decide (legacy.counts.turnCount ≥ maxRolloutTurns) <;>
      simp [hn.ne', hn.ne]
  · intro h
    have hsame : AsyncRolloutImpl.sampleMetrics legacy.withoutRoutes left =
        legacy.sampleMetrics maxRolloutTurns := by
      rw [AsyncRolloutImpl.sampleMetrics, h]
      rfl
    rw [hsame]

/-- Equal samples are the same when one of them is. -/
theorem sameRollouts_replicate {state : TurnState Tok Lp Info Stop Acc} {left left' : Bool}
    {legacy : SampleRollout.State Tok Lp Info Stop Acc} (hn : 0 < n)
    (hmanager : AsyncRolloutImpl.loop I maxSeqLen datum.taskName maxRolloutTurns
      (TurnState.ofDatum datum) = .ok (state, left))
    (hlegacy : SampleRollout.loop I maxSeqLen datum.taskName maxRolloutTurns
      ⟨TurnState.ofDatum datum, [], false⟩ = .ok (legacy, left'))
    (hsame : state = legacy.withoutRoutes) :
    SameRollouts I (AsyncRolloutImpl.runRollout I maxSeqLen datum n maxRolloutTurns)
        (SampleRollout.runAsyncMultiTurnRollout I maxSeqLen (List.replicate n datum)
          maxRolloutTurns) ↔
      NoRoutes legacy.messageLog ∧
        (left = false ↔ legacy.counts.turnCount ≥ maxRolloutTurns) := by
  rw [runRollout_ok hn hmanager, runAsync_ok hn hlegacy, SameRollouts]
  subst hsame
  have hcopies : ((List.range n).map fun i => legacy.finalSample I i datum.taskName).map
      (fun s => (s.messageLog, s.totalReward, s.truncated)) = List.replicate n
        (legacy.messageLog, I.tensor legacy.totalReward, legacy.truncated) := by
    rw [List.map_map]
    calc (List.range n).map (fun _ =>
          (legacy.messageLog, I.tensor legacy.totalReward, legacy.truncated))
        = List.replicate (List.range n).length
            (legacy.messageLog, I.tensor legacy.totalReward, legacy.truncated) := List.map_const'
      _ = _ := by rw [List.length_range]
  refine and_congr ?_ (rolloutMetrics_replicate_iff hn legacy left)
  rw [hcopies, List.map_replicate, List.replicate_right_inj hn.ne', ← eraseRoutes_eq_self]
  simp [AsyncRolloutImpl.completion, SampleRollout.State.withoutRoutes]

omit [Add F] [Add Acc] in
theorem noRoutes_ofDatum :
    NoRoutes (TurnState.ofDatum datum : TurnState Tok Lp Info Stop Acc).messageLog := by
  intro message hmessage
  obtain ⟨m, -, rfl⟩ := List.mem_map.mp hmessage
  rfl

omit [Add F] [Add Acc] in
theorem columnsFit_ofDatum :
    ColumnsFit (TurnState.ofDatum datum : TurnState Tok Lp Info Stop Acc).messageLog := by
  intro message hmessage
  obtain ⟨m, -, rfl⟩ := List.mem_map.mp hmessage
  exact ⟨Nat.zero_le _, Nat.zero_le _⟩

omit [Add F] [Add Acc] in
/-- The first states are the same. -/
theorem withoutRoutes_ofDatum (counts : TurnCounts) :
    (⟨{ (TurnState.ofDatum datum : TurnState Tok Lp Info Stop Acc) with counts := counts }, [],
        false⟩ : SampleRollout.State Tok Lp Info Stop Acc).withoutRoutes =
      { TurnState.ofDatum datum with counts := counts } := by
  rw [SampleRollout.State.withoutRoutes, eraseRoutes_eq_self.mpr noRoutes_ofDatum]

/-- Without a turn, both return the prompt. -/
theorem same_of_no_turn (hn : 0 < n) :
    SameRollouts I (AsyncRolloutImpl.runRollout I maxSeqLen datum n 0)
      (SampleRollout.runAsyncMultiTurnRollout I maxSeqLen (List.replicate n datum) 0) := by
  rw [sameRollouts_replicate hn rfl rfl (withoutRoutes_ofDatum _).symm]
  exact ⟨noRoutes_ofDatum, fun _ => Nat.zero_le _, fun _ => rfl⟩

/-- Without a message to generate from, both stop after a turn. -/
theorem same_iff_of_empty (hn : 0 < n) (hempty : datum.messageLog = []) :
    SameRollouts I (AsyncRolloutImpl.runRollout I maxSeqLen datum n maxRolloutTurns)
        (SampleRollout.runAsyncMultiTurnRollout I maxSeqLen (List.replicate n datum)
          maxRolloutTurns) ↔
      maxRolloutTurns ≠ 1 := by
  have hlog : (TurnState.ofDatum datum : TurnState Tok Lp Info Stop Acc).messageLog = [] := by
    simp [TurnState.ofDatum, hempty]
  cases maxRolloutTurns with
  | zero => exact iff_of_true (same_of_no_turn hn) zero_ne_one
  | succ turns =>
    have hmanager : AsyncRolloutImpl.loop I maxSeqLen datum.taskName (turns + 1)
        (TurnState.ofDatum datum) = .ok _ :=
      breakLoop_of_break rfl (AsyncRolloutImpl.turn_empty hlog) turns
    have hlegacy : SampleRollout.loop I maxSeqLen datum.taskName (turns + 1)
        ⟨TurnState.ofDatum datum, [], false⟩ = .ok _ :=
      breakLoop_of_break rfl (SampleRollout.turn_empty hlog) turns
    rw [sameRollouts_replicate hn hmanager hlegacy (withoutRoutes_ofDatum _).symm]
    have hcount : TurnCounts.turnCount (TurnCounts.begin {}) = 1 := rfl
    constructor
    · rintro ⟨-, hleft⟩ hone
      exact absurd (hleft.mpr (hcount.ge.trans' (by omega))) (by simp)
    · intro hone
      have hroutes :
          NoRoutes (TurnState.ofDatum datum : TurnState Tok Lp Info Stop Acc).messageLog :=
        noRoutes_ofDatum
      refine ⟨hroutes, ⟨fun h => absurd h (by simp), fun h => ?_⟩⟩
      have hle : turns + 1 ≤ 1 := h
      omega

/-- A prompt with messages, by its environment. -/
theorem same_iff_of_ne (hn : 0 < n) (hne : datum.messageLog ≠ []) :
    SameRollouts I (AsyncRolloutImpl.runRollout I maxSeqLen datum n maxRolloutTurns)
        (SampleRollout.runAsyncMultiTurnRollout I maxSeqLen (List.replicate n datum)
          maxRolloutTurns) ↔
      AgreeWhen I maxSeqLen datum maxRolloutTurns := by
  have hlog : (TurnState.ofDatum datum : TurnState Tok Lp Info Stop Acc).messageLog ≠ [] := by
    simpa [TurnState.ofDatum] using hne
  cases maxRolloutTurns with
  | zero =>
    refine iff_of_true (same_of_no_turn hn) ⟨fun h => absurd h hne, fun _ _ h => absurd h ?_, ?_⟩
    · exact lt_irrefl 0
    · intro _ _ _ _ _ hvisit
      exact nomatch hvisit
  | succ turns =>
    by_cases hraises : MissingOr I datum.taskName fun env => env.numComponents = some 0
    · -- both raise in the first turn
      obtain ⟨e, hlegacy⟩ := SampleRollout.turn_raises maxSeqLen
        ⟨TurnState.ofDatum datum, [], false⟩ hlog columnsFit_ofDatum hraises
      obtain ⟨e', hmanager⟩ := AsyncRolloutImpl.turn_raises maxSeqLen hlog
        (hraises.imp_right fun ⟨env, henv, hzero⟩ =>
          ⟨env, henv, by simp [Environment.Single, hzero]⟩)
      obtain ⟨f, hasync⟩ := runAsync_raises (turns + 1) hn ⟨e, breakLoop_of_raise rfl hlegacy turns⟩
      obtain ⟨f', hrollout⟩ := runRollout_raises (turns + 1) hn
        ⟨e', breakLoop_of_raise rfl hmanager turns⟩
      rw [hasync, hrollout]
      refine iff_of_true trivial ⟨fun h => absurd h hne, fun env _ _ henv hzero => ?_,
        fun env _ henv hzero => ?_⟩
      all_goals
        rcases hraises with hnone | ⟨env', henv', hzero'⟩
        · rw [henv] at hnone
          exact nomatch hnone
        · rw [henv, Option.some.injEq] at henv'
          exact absurd (henv' ▸ hzero') hzero
    · obtain ⟨hsome, hcomponents⟩ := not_or.mp hraises
      obtain ⟨env, henv⟩ := Option.ne_none_iff_exists'.mp hsome
      have hmany : env.numComponents ≠ some 0 := fun hzero => hcomponents ⟨env, henv, hzero⟩
      let start : SampleRollout.State Tok Lp Info Stop Acc :=
        ⟨TurnState.ofDatum datum, [], false⟩
      have hstart : start.withoutRoutes = TurnState.ofDatum datum := withoutRoutes_ofDatum _
      obtain ⟨last, left, hloop, hleft, hroutes, hsingle⟩ := SampleRollout.loop_spec maxSeqLen henv
        hmany start ⟨hlog, columnsFit_ofDatum, .inl rfl⟩ (turns + 1)
      have hcount : start.counts.turnCount + (turns + 1) = turns + 1 := Nat.zero_add _
      rw [hcount] at hleft
      by_cases hone : env.Single
      · have hmanager := hsingle hone
        rw [hstart] at hmanager
        rw [sameRollouts_replicate hn hmanager hloop rfl, and_iff_left hleft, hroutes,
          and_iff_right noRoutes_ofDatum]
        constructor
        · intro h
          refine ⟨fun hempty => absurd hempty hne, fun env' _ _ henv' _ => ?_,
            fun env' reached _ _ _ hvisit => h reached hvisit⟩
          rw [henv, Option.some.injEq] at henv'
          exact henv' ▸ hone
        · intro h reached hvisit
          exact h.no_routes env reached henv hmany hne hvisit
      · -- the manager raises in the first turn
        obtain ⟨e, hmanager⟩ := AsyncRolloutImpl.turn_raises maxSeqLen hlog
          (.inr ⟨env, henv, hone⟩)
        obtain ⟨f, hrollout⟩ := runRollout_raises (turns + 1) hn
          ⟨e, breakLoop_of_raise rfl hmanager turns⟩
        rw [hrollout, runAsync_ok hn hloop]
        exact iff_of_false not_false
          fun h => hone (h.single env hne (Nat.succ_pos turns) henv hmany)

variable (I maxSeqLen datum n maxRolloutTurns)

/-- The completions of a prompt are those of a batch of its copies, just under the condition. -/
theorem runRollout_same_iff :
    SameRollouts I (AsyncRolloutImpl.runRollout I maxSeqLen datum n maxRolloutTurns)
        (SampleRollout.runAsyncMultiTurnRollout I maxSeqLen (List.replicate n datum)
          maxRolloutTurns) ↔
      n = 0 ∨ AgreeWhen I maxSeqLen datum maxRolloutTurns := by
  rcases Nat.eq_zero_or_pos n with rfl | hn
  · exact iff_of_true trivial (.inl rfl)
  · rw [or_iff_right hn.ne']
    by_cases hempty : datum.messageLog = []
    · rw [same_iff_of_empty hn hempty]
      exact ⟨fun h => ⟨fun _ => h, fun _ hne => absurd hempty hne,
        fun _ _ _ _ hne => absurd hempty hne⟩, fun h => h.empty_prompt hempty⟩
    · exact same_iff_of_ne hn hempty

end Completions

/-! ### Two components -/

/-- An environment with two rewards, after which the sample is terminated. -/
def twoRewards : Environment Unit Unit ℤ where
  numComponents := some 2
  step _ _ := ⟨"user", "done", none, none, .components [1, 0], true⟩
  numComponents_step _ _ := rfl

/-- A generator that appends a token. -/
def appendsToken : AsyncInterfaces ℕ ℕ Unit Unit ℤ ℤ where
  generateAsync tokens _ :=
    { outputIds := tokens ++ [7]
      unpaddedSequenceLength := tokens.length + 1
      logprobs := none
      routedExperts := none
      truncated := none
      genLeaderWorkerIdx := none
      le_length := by simp
      length_logprobs := by simp }
  decode _ := "yes"
  tokenizer _ := [8]
  padTokenId := 0
  taskToEnv _ := some twoRewards
  item := id
  tensor := id

/-- With two rewards the manager raises where the other rollout returns. -/
theorem twoRewards_raise :
    ¬ SameRollouts appendsToken
      (AsyncRolloutImpl.runRollout appendsToken 16 ⟨[⟨"user", "question", [1]⟩], (), "task", none⟩
        1 1)
      (SampleRollout.runAsyncMultiTurnRollout appendsToken 16
        (List.replicate 1 ⟨[⟨"user", "question", [1]⟩], (), "task", none⟩) 1) := by
  intro h
  have hagree := (same_iff_of_ne one_pos (List.cons_ne_nil _ _)).mp h
  have hsingle := hagree.single twoRewards (List.cons_ne_nil _ _) one_pos rfl (by decide)
  simp [Environment.Single, twoRewards] at hsingle

end NemoRL.Experience
