import NemoRL.Experience.BatchRollout
import NemoRL.Experience.RolloutManagerSpec

/-!
# Lengths and token counts of rollouts

A generator is only asked for a response when there is room for at least one token, and the
observation behind the response fills the sequence at most. A sample whose sequence is full is
done. What is counted of a sample are the tokens of the messages behind its prompt.

A sample that is rolled out alone may have another generator and other environments in every
turn, and a generator that raises ends its rollout.

## Main definitions

* `Accounts` — the messages of some turns, and their tokens.
* `ShortPrompt` — the messages leave room for a response.
* `SampleRollout.turnOf` — a turn with the generator and the environments of this turn.

## Main results

* `BatchRollout.loop_within` — the samples of a batch.
* `SampleRollout.loop_within` — a sample alone.
* `rollouts_within_window` — both of them.
-/

namespace NemoRL.Experience

open Lib Generation

variable {Tok Lp Info Stop Ans F Acc : Type}

/-! ## What is counted -/

/-- The messages of a turn. -/
structure Exchange (Tok Lp : Type) where
  response : RolloutMessage Tok Lp
  observation : RolloutMessage Tok Lp

/-- The messages of a turn in their order. -/
def Exchange.messages (exchange : Exchange Tok Lp) : List (RolloutMessage Tok Lp) :=
  [exchange.response, exchange.observation]

/-- The tokens of the responses, of the observations and of both. -/
structure TokenCounts where
  assistant : ℕ
  env : ℕ
  total : ℕ

/-- Count the tokens of a response and of an observation. -/
def TokenCounts.add (counts : TokenCounts) (exchange : Exchange Tok Lp) : TokenCounts where
  assistant := counts.assistant + exchange.response.tokenIds.length
  env := counts.env + exchange.observation.tokenIds.length
  total := counts.total + exchange.response.tokenIds.length + exchange.observation.tokenIds.length

/-- The messages behind a prompt are those of some turns, up to their routes, and the counts
are the numbers of their tokens. -/
structure Accounts (prompt messageLog : List (RolloutMessage Tok Lp)) (counts : TokenCounts)
    (exchanges : List (Exchange Tok Lp)) : Prop where
  messages : eraseRoutes messageLog = eraseRoutes prompt ++ exchanges.flatMap Exchange.messages
  roles : ∀ e ∈ exchanges, e.response.role = "assistant"
  assistant : counts.assistant = (exchanges.map fun e => e.response.tokenIds.length).sum
  env : counts.env = (exchanges.map fun e => e.observation.tokenIds.length).sum
  total : counts.total = counts.assistant + counts.env

/-- The messages leave room for a response. They are as long as their tokens. -/
structure ShortPrompt (maxSeqLen : ℕ) (messageLog : List (RolloutMessage Tok Lp)) : Prop where
  lt : (logTokens messageLog).length < maxSeqLen
  flatLength : SampleRollout.flatLength messageLog = (logTokens messageLog).length

/-- The messages of a sample fit into the window and are counted. -/
structure Accounted (maxSeqLen : ℕ) (prompt messageLog : List (RolloutMessage Tok Lp))
    (counts : TokenCounts) : Prop where
  le : (logTokens messageLog).length ≤ maxSeqLen
  accounts : ∃ exchanges, Accounts prompt messageLog counts exchanges

/-- A turn of a sample: its messages, the counts of their tokens, and their length. A sample
that goes on has room for another response. -/
structure Turned (maxSeqLen : ℕ) (messageLog messageLog' : List (RolloutMessage Tok Lp))
    (counts counts' : TokenCounts) (full : Bool) (exchange : Exchange Tok Lp) : Prop where
  role : exchange.response.role = "assistant"
  messages : eraseRoutes messageLog' = eraseRoutes messageLog ++ exchange.messages
  columnsFit : ColumnsFit messageLog'
  counts : counts' = counts.add exchange
  le : (logTokens messageLog').length ≤ maxSeqLen
  lt : full = false → (logTokens messageLog').length < maxSeqLen

theorem Accounts.refl (prompt : List (RolloutMessage Tok Lp)) :
    Accounts prompt prompt ⟨0, 0, 0⟩ [] where
  messages := by simp
  roles := by simp
  assistant := rfl
  env := rfl
  total := rfl

/-- The messages of one more turn. -/
theorem Accounts.add {prompt messageLog messageLog' : List (RolloutMessage Tok Lp)}
    {counts : TokenCounts} {exchanges : List (Exchange Tok Lp)}
    (h : Accounts prompt messageLog counts exchanges) {exchange : Exchange Tok Lp}
    (hrole : exchange.response.role = "assistant")
    (hmessages : eraseRoutes messageLog' = eraseRoutes messageLog ++ exchange.messages) :
    Accounts prompt messageLog' (counts.add exchange) (exchanges ++ [exchange]) where
  messages := by
    rw [hmessages, h.messages, List.flatMap_append, List.append_assoc]
    simp
  roles := by
    intro e he
    rcases List.mem_append.mp he with he | he
    · exact h.roles e he
    · rw [List.mem_singleton.mp he]
      exact hrole
  assistant := by
    rw [List.map_append, List.sum_append, ← h.assistant]
    rfl
  env := by
    rw [List.map_append, List.sum_append, ← h.env]
    rfl
  total := by
    have htotal := h.total
    simp only [TokenCounts.add]
    omega

theorem Turned.accounted {maxSeqLen : ℕ}
    {prompt messageLog messageLog' : List (RolloutMessage Tok Lp)} {counts counts' : TokenCounts}
    {full : Bool} {exchange : Exchange Tok Lp}
    (h : Turned maxSeqLen messageLog messageLog' counts counts' full exchange)
    (haccounted : Accounted maxSeqLen prompt messageLog counts) :
    Accounted maxSeqLen prompt messageLog' counts' := by
  obtain ⟨exchanges, haccounts⟩ := haccounted.accounts
  exact ⟨h.le, exchanges ++ [exchange], h.counts ▸ haccounts.add h.role h.messages⟩

theorem ColumnsFit.shortPrompt {messageLog : List (RolloutMessage Tok Lp)}
    (h : ColumnsFit messageLog) {maxSeqLen : ℕ}
    (hlt : (logTokens messageLog).length < maxSeqLen) : ShortPrompt maxSeqLen messageLog :=
  ⟨hlt, h.flatLength_eq⟩

theorem columnsFit_promptMessages (messageLog : List (Message Tok)) :
    ColumnsFit (BatchRollout.promptMessages messageLog : List (RolloutMessage Tok Lp)) := by
  intro message hmessage
  obtain ⟨m, -, rfl⟩ := List.mem_map.mp hmessage
  simp

theorem logTokens_promptMessages (messageLog : List (Message Tok)) :
    logTokens (BatchRollout.promptMessages messageLog : List (RolloutMessage Tok Lp)) =
      flatTokens messageLog := by
  simp [logTokens, BatchRollout.promptMessages, flatTokens, List.flatMap_map]

/-- The tokens behind a turn. -/
theorem length_logTokens_turn {messageLog messageLog' : List (RolloutMessage Tok Lp)}
    {exchange : Exchange Tok Lp}
    (h : eraseRoutes messageLog' = eraseRoutes messageLog ++ exchange.messages) :
    (logTokens messageLog').length = (logTokens messageLog).length +
      exchange.response.tokenIds.length + exchange.observation.tokenIds.length := by
  rw [← logTokens_eraseRoutes, h, logTokens_append, logTokens_eraseRoutes]
  simp [logTokens, Exchange.messages, Nat.add_assoc]

/-! ## Samples of a batch -/

namespace BatchRollout

open TaskEnvironments

variable {I : Interfaces Tok Lp Info Stop Ans F} {hasStopStrings : Bool} {maxSeqLen : ℕ}

/-- The prompts and the responses to them fit into the window. -/
def Interfaces.KeepsWindow (I : Interfaces Tok Lp Info Stop Ans F) (maxSeqLen : ℕ) : Prop :=
  ∀ turnIndex input outputs, I.generate turnIndex input = .ok outputs →
    (∀ n ∈ input.inputLengths, n < maxSeqLen) →
      ∀ p ∈ input.inputLengths.zip outputs, p.1 + (generatedPart p.1 p.2).length ≤ maxSeqLen

/-- What is counted of the tokens of a sample. -/
def Row.tokenCounts (row : Row Tok Lp Info Stop F) : TokenCounts :=
  ⟨row.sampleAssistantTokenCount, row.sampleEnvTokenCount, row.sampleTokenCount⟩

theorem flatInput_lengths {padTokenId : Tok} {messageLogs : List (List (RolloutMessage Tok Lp))}
    {inputIds : InputIds Tok} {inputLengths : List ℕ}
    (h : flatInput padTokenId messageLogs = .ok (inputIds, inputLengths)) :
    inputLengths = messageLogs.map SampleRollout.flatLength := by
  unfold flatInput at h
  dsimp only at h
  split at h
  · cases h
  · split at h <;>
    · rw [Except.ok.injEq, Prod.mk.injEq] at h
      exact h.2.symm

/-- A response is appended to messages whose columns fit, and counted. -/
theorem Row.respond_spec (I : Interfaces Tok Lp Info Stop Ans F) {row : Row Tok Lp Info Stop F}
    (hfit : ColumnsFit row.messageLog) (output : AsyncOutput Tok Lp) :
    let inputLength := (logTokens row.messageLog).length
    let response := plainResponse I.decode inputLength output
    ∃ messageLog' truncated truncated', row.respond I inputLength output =
        .ok ({ row with
          messageLog := messageLog'
          sampleTruncated := truncated
          sampleAssistantTokenCount := row.sampleAssistantTokenCount + response.tokenIds.length
          sampleTokenCount := row.sampleTokenCount + response.tokenIds.length },
          ⟨response.tokenIds, truncated', inputLength⟩) ∧
      eraseRoutes messageLog' = eraseRoutes row.messageLog ++ [response] ∧
      ColumnsFit messageLog' := by
  intro inputLength response
  obtain ⟨messageLog', happend, herase, hfit', -⟩ := appendResponse_spec I.decode hfit output
  refine ⟨messageLog', row.sampleTruncated || output.truncated.getD false,
    output.truncated.getD false, ?_, herase, hfit'⟩
  unfold Row.respond
  simp only [inputLength, happend, bind, Except.bind, pure, Except.pure]
  rfl

/-- The responses of a turn, one for each sample. -/
theorem generateResponses_spec (hkeeps : I.KeepsWindow maxSeqLen) {turnIndex : ℕ}
    {rows : List (Row Tok Lp Info Stop F)}
    (hshort : ∀ row ∈ rows, ShortPrompt maxSeqLen row.messageLog)
    {generated : List (Row Tok Lp Info Stop F × Generated Tok)}
    (h : generateResponses I hasStopStrings turnIndex rows = .ok generated) {k : ℕ}
    {p : Row Tok Lp Info Stop F × Generated Tok} (hp : generated[k]? = some p) :
    ∃ row output, rows[k]? = some row ∧
      row.respond I (logTokens row.messageLog).length output = .ok p ∧
      (logTokens row.messageLog).length +
        (generatedPart (logTokens row.messageLog).length output).length ≤ maxSeqLen := by
  unfold generateResponses at h
  simp only [bind, bind_eq_ok] at h
  obtain ⟨⟨inputIds, inputLengths⟩, hflat, outputs, houtputs, h⟩ := h
  obtain ⟨-, h⟩ : ∃ _ : Unit, _ := by
    split at h
    · cases h
    · exact ⟨(), h⟩
  obtain rfl := flatInput_lengths hflat
  have hlengths : ∀ n ∈ (rows.map Row.messageLog).map SampleRollout.flatLength,
      n < maxSeqLen := by
    intro n hn
    rw [List.map_map] at hn
    obtain ⟨row, hrow, rfl⟩ := List.mem_map.mp hn
    rw [Function.comp_apply, (hshort row hrow).flatLength]
    exact (hshort row hrow).lt
  have hwindow := hkeeps turnIndex _ outputs houtputs hlengths
  obtain ⟨⟨⟨row, n⟩, output⟩, hzip, hrespond⟩ := getElem?_of_mapM h hp
  obtain ⟨hrow, hn, houtput⟩ : rows[k]? = some row ∧
      ((rows.map Row.messageLog).map SampleRollout.flatLength)[k]? = some n ∧
      outputs[k]? = some output := by
    obtain ⟨hpair, houtput⟩ := List.getElem?_zip_eq_some.mp hzip
    obtain ⟨hrow, hn⟩ := List.getElem?_zip_eq_some.mp hpair
    exact ⟨hrow, hn, houtput⟩
  have hlength : n = (logTokens row.messageLog).length := by
    rw [List.getElem?_map, List.getElem?_map, hrow, Option.map_some, Option.map_some,
      Option.some.injEq] at hn
    rw [← hn]
    exact (hshort row (List.mem_of_getElem? hrow)).flatLength
  have hmem : (n, output) ∈ ((rows.map Row.messageLog).map SampleRollout.flatLength).zip
      outputs := List.mem_of_getElem? (List.getElem?_zip_eq_some.mpr ⟨hn, houtput⟩)
  refine ⟨row, output, hrow, hlength ▸ hrespond, ?_⟩
  have hle := hwindow (n, output) hmem
  rwa [hlength] at hle

/-- A response leaves room for an observation, which may be empty. -/
theorem tokensLeftForObs_nonneg (hkeeps : I.KeepsWindow maxSeqLen) {turnIndex : ℕ}
    {rows : List (Row Tok Lp Info Stop F)} (hfit : ∀ row ∈ rows, ColumnsFit row.messageLog)
    (hlt : ∀ row ∈ rows, (logTokens row.messageLog).length < maxSeqLen)
    {generated : List (Row Tok Lp Info Stop F × Generated Tok)}
    (h : generateResponses I hasStopStrings turnIndex rows = .ok generated) :
    ∀ p ∈ generated, 0 ≤ tokensLeftForObs maxSeqLen p.2 := by
  intro p hp
  obtain ⟨k, hk⟩ := List.mem_iff_getElem?.mp hp
  obtain ⟨row, output, hrow, hrespond, hle⟩ := generateResponses_spec hkeeps
    (fun row hrow => (hfit row hrow).shortPrompt (hlt row hrow)) h hk
  obtain ⟨messageLog', truncated, truncated', heq, -, -⟩ :=
    Row.respond_spec I (hfit row (List.mem_of_getElem? hrow)) output
  rw [hrespond, Except.ok.injEq] at heq
  have hused : p.2.generatedIds.length + p.2.inputLength ≤ maxSeqLen := by
    rw [heq]
    exact Nat.add_comm _ _ ▸ hle
  unfold tokensLeftForObs
  omega

/-- An observation is appended, cut to the tokens that are left, and counted. -/
theorem Row.observe_spec {row row' : Row Tok Lp Info Stop F} {generated : Generated Tok}
    {observation : String × String} {overflows : Bool} (hfit : ColumnsFit row.messageLog)
    (hused : generated.inputLength + generated.generatedIds.length ≤ maxSeqLen)
    (h : Row.observe I maxSeqLen row generated observation = .ok (row', overflows)) :
    ∃ message : RolloutMessage Tok Lp,
      eraseRoutes row'.messageLog = eraseRoutes row.messageLog ++ [message] ∧
      ColumnsFit row'.messageLog ∧
      row'.sampleAssistantTokenCount = row.sampleAssistantTokenCount ∧
      row'.sampleEnvTokenCount = row.sampleEnvTokenCount + message.tokenIds.length ∧
      row'.sampleTokenCount = row.sampleTokenCount + message.tokenIds.length ∧
      generated.inputLength + generated.generatedIds.length + message.tokenIds.length ≤
        maxSeqLen ∧
      (overflows = false → generated.inputLength + generated.generatedIds.length +
        message.tokenIds.length < maxSeqLen) := by
  unfold Row.observe at h
  dsimp only at h
  split at h
  · cases h
  · rw [Except.ok.injEq, Prod.mk.injEq] at h
    obtain ⟨rfl, hoverflows⟩ := h
    obtain ⟨tokens, htokens⟩ : ∃ tokens, tokens = (if decide ((I.tokenizer observation.2).length +
        generated.generatedIds.length + generated.inputLength ≥ maxSeqLen) = true then
      (I.tokenizer observation.2).take (tokensLeftForObs maxSeqLen generated).toNat
      else I.tokenizer observation.2) := ⟨_, rfl⟩
    rw [← htokens]
    have hleft : (tokensLeftForObs maxSeqLen generated).toNat =
        maxSeqLen - (generated.generatedIds.length + generated.inputLength) := by
      unfold tokensLeftForObs
      omega
    obtain ⟨herase, hfit', -⟩ := observationMessage_spec hfit observation.1 observation.2 tokens
    refine ⟨_, herase, hfit', rfl, rfl, rfl, ?_, ?_⟩
    · dsimp only
      rw [htokens]
      split
      · rw [List.length_take, hleft]
        omega
      · rename_i hnot
        simp only [decide_eq_true_eq] at hnot
        omega
    · intro hfalse
      dsimp only
      rw [hfalse] at hoverflows
      rw [htokens, hoverflows]
      simp only [ge_iff_le, decide_eq_false_iff_not] at hoverflows
      simp only [Bool.false_eq_true, if_false]
      omega

/-- Rewards change neither the messages nor the counts. -/
structure Row.SameMessages (row row' : Row Tok Lp Info Stop F) : Prop where
  messageLog : row'.messageLog = row.messageLog
  assistant : row'.sampleAssistantTokenCount = row.sampleAssistantTokenCount
  env : row'.sampleEnvTokenCount = row.sampleEnvTokenCount
  total : row'.sampleTokenCount = row.sampleTokenCount

theorem addRewards_spec [Add F] [Zero F] {numberOfRewards : ℕ}
    {rows rows' : List (Row Tok Lp Info Stop F)} {rewards : RewardTensor F}
    (h : addRewards numberOfRewards rows rewards = .ok rows') {k : ℕ}
    {row' : Row Tok Lp Info Stop F} (hk : rows'[k]? = some row') :
    ∃ row, rows[k]? = some row ∧ row.SameMessages row' := by
  cases rewards with
  | scalars rewards =>
    rw [addRewards] at h
    split at h
    · rw [Except.ok.injEq] at h
      rw [← h, List.getElem?_zipWith] at hk
      cases hrow : rows[k]? with
      | none => simp [hrow] at hk
      | some row =>
        cases hreward : rewards[k]? with
        | none => simp [hrow, hreward] at hk
        | some reward =>
          simp only [hrow, hreward, Option.some.injEq] at hk
          exact ⟨row, rfl, hk ▸ ⟨rfl, rfl, rfl, rfl⟩⟩
    · split at h <;> cases h
  | vectors rewards =>
    rw [addRewards] at h
    split at h
    · cases h
    · obtain ⟨⟨row, reward⟩, hzip, hadd⟩ := getElem?_of_mapM h hk
      refine ⟨row, (List.getElem?_zip_eq_some.mp hzip).1, ?_⟩
      unfold Row.addComponents at hadd
      dsimp only at hadd
      split at hadd
      · rw [Except.ok.injEq] at hadd
        exact hadd ▸ ⟨rfl, rfl, rfl, rfl⟩
      · cases hadd

/-- What is taken in for a sample is its observation, and a sample whose observation is cut is
done. -/
theorem Row.takeIn_spec {envOutput : StepResult (String × String) Info Stop Ans F}
    {p : (Row Tok Lp Info Stop F × Generated Tok) × ℕ} {row' : Row Tok Lp Info Stop F}
    {done : Bool} (h : Row.takeIn I maxSeqLen envOutput p = .ok (row', done)) :
    ∃ observation observed overflows,
      Row.observe I maxSeqLen p.1.1 p.1.2 observation = .ok (observed, overflows) ∧
      observed.SameMessages row' ∧ (done = false → overflows = false) := by
  unfold Row.takeIn at h
  simp only [bind, bind_eq_ok, pure, Except.pure, Except.ok.injEq, Prod.mk.injEq] at h
  obtain ⟨observation, -, ⟨observed, overflows⟩, hobserve, terminated, -, stop, -, metadata, -,
    hrow, hdone⟩ := h
  refine ⟨observation, observed, overflows, hobserve, hrow ▸ ⟨rfl, rfl, rfl, rfl⟩, ?_⟩
  intro hfalse
  rw [hfalse] at hdone
  exact (Bool.or_eq_false_iff.mp hdone).1

/-- The messages and the counts of a sample after a turn. -/
theorem Row.turned_of {row responded rewarded observed row' : Row Tok Lp Info Stop F}
    {generated : Generated Tok} {output : AsyncOutput Tok Lp} {observation : String × String}
    {overflows done : Bool} (hfit : ColumnsFit row.messageLog)
    (hrespond : row.respond I (logTokens row.messageLog).length output =
      .ok (responded, generated))
    (hle : (logTokens row.messageLog).length +
      (generatedPart (logTokens row.messageLog).length output).length ≤ maxSeqLen)
    (hrewarded : responded.SameMessages rewarded)
    (hobserve : Row.observe I maxSeqLen rewarded generated observation =
      .ok (observed, overflows))
    (hrow' : observed.SameMessages row') (hdone : done = false → overflows = false) :
    ∃ exchange, Turned maxSeqLen row.messageLog row'.messageLog row.tokenCounts row'.tokenCounts
      done exchange := by
  obtain ⟨messageLog', truncated, truncated', heq, herase, hfit'⟩ :=
    Row.respond_spec I hfit output
  rw [hrespond, Except.ok.injEq, Prod.mk.injEq] at heq
  obtain ⟨rfl, rfl⟩ := heq
  have hlog : rewarded.messageLog = messageLog' := hrewarded.messageLog
  obtain ⟨message, hmessage, hfitObs, hassistant, henv, htotal, hwindow, hroom⟩ :=
    Row.observe_spec (I := I) (hlog ▸ hfit') hle hobserve
  rw [hlog, herase, List.append_assoc] at hmessage
  let exchange : Exchange Tok Lp :=
    ⟨plainResponse I.decode (logTokens row.messageLog).length output, message⟩
  have hmessages : eraseRoutes row'.messageLog = eraseRoutes row.messageLog ++
      exchange.messages := hrow'.messageLog ▸ hmessage
  have hlength := length_logTokens_turn hmessages
  refine ⟨exchange, rfl, hmessages, hrow'.messageLog ▸ hfitObs, ?_, ?_, ?_⟩
  · unfold Row.tokenCounts
    rw [hrow'.assistant, hassistant, hrewarded.assistant, hrow'.total, htotal, hrewarded.total,
      hrow'.env, henv, hrewarded.env]
    rfl
  · rw [hlength]
    exact hwindow
  · intro hfalse
    rw [hlength]
    exact hroom (hdone hfalse)

section Loop
variable [Add F] [Zero F]

/-- A turn of a batch is a turn of its active samples. -/
theorem turn_spec (hkeeps : I.KeepsWindow maxSeqLen) {state state' : State Tok Lp Info Stop F}
    (hfit : ∀ row ∈ state.activeBatch, ColumnsFit row.messageLog)
    (hlt : ∀ row ∈ state.activeBatch, (logTokens row.messageLog).length < maxSeqLen)
    (h : turn I hasStopStrings maxSeqLen state = .ok state') :
    ∃ results : List (Row Tok Lp Info Stop F × Bool),
      state'.rows = ActiveSet.writeBack state.rows state.active (results.map Prod.fst) ∧
      state'.active = ActiveSet.stillActive state.active (results.map Prod.snd) ∧
      ∀ (k : ℕ) row' done, results[k]? = some (row', done) → ∃ row,
        state.activeBatch[k]? = some row ∧
        ∃ exchange, Turned maxSeqLen row.messageLog row'.messageLog row.tokenCounts
          row'.tokenCounts done exchange := by
  unfold turn at h
  simp only [bind, bind_eq_ok, pure, Except.pure, Except.ok.injEq] at h
  obtain ⟨generated, hgenerated, envOutput, -, rewarded, hrewarded, results, hresults, rfl⟩ := h
  refine ⟨results, rfl, rfl, fun k row' done hk => ?_⟩
  obtain ⟨⟨⟨rewardedRow, response⟩, j⟩, hzip, htake⟩ := getElem?_of_mapM hresults hk
  obtain ⟨hrow, hresponse⟩ : rewarded[k]? = some rewardedRow ∧
      (generated.map Prod.snd)[k]? = some response := by
    rw [List.getElem?_zipIdx] at hzip
    obtain ⟨p, hp, heq⟩ := Option.map_eq_some_iff.mp hzip
    rw [Prod.mk.injEq] at heq
    obtain ⟨rfl, -⟩ := heq
    exact List.getElem?_zip_eq_some.mp hp
  obtain ⟨respondedRow, hresponded, hsame⟩ := addRewards_spec hrewarded hrow
  rw [List.getElem?_map] at hresponse hresponded
  obtain ⟨p, hp, rfl⟩ := Option.map_eq_some_iff.mp hresponse
  rw [hp, Option.map_some, Option.some.injEq] at hresponded
  subst hresponded
  obtain ⟨row, output, hbefore, hrespond, hle⟩ := generateResponses_spec hkeeps
    (fun row hmem => (hfit row hmem).shortPrompt (hlt row hmem)) hgenerated hp
  obtain ⟨observation, observed, overflows, hobserve, hafter, hdone⟩ := Row.takeIn_spec htake
  exact ⟨row, hbefore, Row.turned_of (hfit row (List.mem_of_getElem? hbefore)) hrespond hle
    hsame hobserve hafter hdone⟩

end Loop

/-- The messages of a sample are counted behind its prompt. -/
def Row.AccountedFor (maxSeqLen : ℕ) (datum : Datum Tok Info Stop)
    (row : Row Tok Lp Info Stop F) : Prop :=
  Accounted maxSeqLen (promptMessages datum.messageLog) row.messageLog row.tokenCounts

/-- A batch between two turns: what is counted, and which samples have room for a response. -/
structure State.Within (maxSeqLen : ℕ) (datums : List (Datum Tok Info Stop))
    (state : State Tok Lp Info Stop F) : Prop where
  length : state.rows.length = datums.length
  accounted : ∀ (i : ℕ) datum row, datums[i]? = some datum → state.rows[i]? = some row →
    row.AccountedFor maxSeqLen datum
  columnsFit : ∀ row ∈ state.rows, ColumnsFit row.messageLog
  nodup : state.active.Nodup
  active : ∀ i ∈ state.active, ∃ row, state.rows[i]? = some row ∧
    (logTokens row.messageLog).length < maxSeqLen

theorem State.Within.lt_length {datums : List (Datum Tok Info Stop)}
    {state : State Tok Lp Info Stop F} (h : state.Within maxSeqLen datums) :
    ∀ i ∈ state.active, i < state.rows.length := by
  intro i hi
  obtain ⟨row, hrow, -⟩ := h.active i hi
  exact (List.getElem?_eq_some_iff.mp hrow).1

/-- An active sample has room for a response. -/
theorem State.Within.activeBatch {datums : List (Datum Tok Info Stop)}
    {state : State Tok Lp Info Stop F} (h : state.Within maxSeqLen datums) :
    ∀ row ∈ state.activeBatch, ColumnsFit row.messageLog ∧
      (logTokens row.messageLog).length < maxSeqLen := by
  intro row hrow
  obtain ⟨i, hi, hget⟩ := List.mem_filterMap.mp hrow
  obtain ⟨row', hrow', hlt⟩ := h.active i hi
  rw [hget, Option.some.injEq] at hrow'
  exact ⟨h.columnsFit row (List.mem_of_getElem? hget), hrow' ▸ hlt⟩

theorem within_ofBatch [Zero F] {inputBatch : InputBatch Tok Info Stop}
    (hprompts : ∀ datum ∈ inputBatch.rows, (flatTokens datum.messageLog).length < maxSeqLen) :
    (State.ofBatch inputBatch : State Tok Lp Info Stop F).Within maxSeqLen inputBatch.rows where
  length := by simp [State.ofBatch]
  accounted := by
    intro i datum row hdatum hrow
    simp only [State.ofBatch, List.getElem?_map, hdatum, Option.map_some, Option.some.injEq]
      at hrow
    subst hrow
    refine ⟨?_, [], Accounts.refl _⟩
    rw [Row.ofDatum, logTokens_promptMessages]
    exact (hprompts datum (List.mem_of_getElem? hdatum)).le
  columnsFit := by
    intro row hrow
    obtain ⟨datum, -, rfl⟩ := List.mem_map.mp hrow
    exact columnsFit_promptMessages datum.messageLog
  nodup := List.nodup_range
  active := by
    intro i hi
    have hlt : i < inputBatch.rows.length := List.mem_range.mp hi
    refine ⟨Row.ofDatum inputBatch.rows[i], by simp [State.ofBatch, hlt], ?_⟩
    rw [Row.ofDatum, logTokens_promptMessages]
    exact hprompts _ (List.getElem_mem hlt)

section Loop
variable [Add F] [Zero F]

/-- A turn keeps what is counted, and leaves only samples active that have room. -/
theorem State.Within.turn (hkeeps : I.KeepsWindow maxSeqLen)
    {datums : List (Datum Tok Info Stop)} {state state' : State Tok Lp Info Stop F}
    (h : state.Within maxSeqLen datums)
    (hturn : BatchRollout.turn I hasStopStrings maxSeqLen state = .ok state') :
    state'.Within maxSeqLen datums := by
  obtain ⟨results, hrows, hactive, hresults⟩ := turn_spec hkeeps
    (fun row hrow => (h.activeBatch row hrow).1) (fun row hrow => (h.activeBatch row hrow).2)
    hturn
  -- every row stays as it is and is dropped, or takes its turn
  have hnext : ∀ (i : ℕ) row, state.rows[i]? = some row → ∃ row', state'.rows[i]? = some row' ∧
      ((row' = row ∧ i ∉ state'.active) ∨ ∃ done, (∃ exchange, Turned maxSeqLen row.messageLog
        row'.messageLog row.tokenCounts row'.tokenCounts done exchange) ∧
        (i ∈ state'.active → done = false)) := by
    intro i row hrow
    rw [hrows, hactive]
    exact ActiveSet.writeBack_spec h.nodup h.lt_length hresults hrow
  have hlength : state'.rows.length = state.rows.length := by
    rw [hrows, ActiveSet.length_writeBack]
  have hbefore : ∀ (i : ℕ) row', state'.rows[i]? = some row' →
      ∃ row, state.rows[i]? = some row := by
    intro i row' hrow'
    have hlt := (List.getElem?_eq_some_iff.mp hrow').1
    exact ⟨_, List.getElem?_eq_getElem (hlength ▸ hlt)⟩
  refine ⟨by rw [hlength, h.length], ?_, ?_, ?_, ?_⟩
  · intro i datum row' hdatum hrow'
    obtain ⟨row, hrow⟩ := hbefore i row' hrow'
    have haccounted := h.accounted i datum row hdatum hrow
    obtain ⟨row'', hrow'', hcases⟩ := hnext i row hrow
    rw [hrow', Option.some.injEq] at hrow''
    subst hrow''
    rcases hcases with ⟨rfl, -⟩ | ⟨done, ⟨exchange, hturned⟩, -⟩
    · exact haccounted
    · exact hturned.accounted haccounted
  · intro row' hmem
    obtain ⟨i, hrow'⟩ := List.mem_iff_getElem?.mp hmem
    obtain ⟨row, hrow⟩ := hbefore i row' hrow'
    obtain ⟨row'', hrow'', hcases⟩ := hnext i row hrow
    rw [hrow', Option.some.injEq] at hrow''
    subst hrow''
    rcases hcases with ⟨rfl, -⟩ | ⟨done, ⟨exchange, hturned⟩, -⟩
    · exact h.columnsFit _ (List.mem_of_getElem? hrow)
    · exact hturned.columnsFit
  · rw [hactive]
    exact ActiveSet.stillActive_nodup h.nodup _
  · intro i hi
    have hmem : i ∈ state.active := ActiveSet.mem_of_mem_stillActive (hactive ▸ hi)
    obtain ⟨row, hrow, -⟩ := h.active i hmem
    obtain ⟨row', hrow', hcases⟩ := hnext i row hrow
    rcases hcases with ⟨-, hnot⟩ | ⟨done, ⟨exchange, hturned⟩, hdone⟩
    · exact absurd hi hnot
    · exact ⟨row', hrow', hturned.lt (hdone hi)⟩

/-- The states from which a batch takes a turn. -/
def Visits (I : Interfaces Tok Lp Info Stop Ans F) (hasStopStrings : Bool) (maxSeqLen : ℕ) :
    ℕ → State Tok Lp Info Stop F → State Tok Lp Info Stop F → Prop :=
  BreakVisits (fun state => state.active.isEmpty) fun state =>
    (BatchRollout.turn I hasStopStrings maxSeqLen state).map fun state => (state, false)

/-- Wherever a batch takes a turn its samples have room for a response and for an observation,
and after any number of turns everything is counted. -/
theorem loop_within (hkeeps : I.KeepsWindow maxSeqLen) (hasStopStrings : Bool)
    {datums : List (Datum Tok Info Stop)} {state : State Tok Lp Info Stop F}
    (h : state.Within maxSeqLen datums) (n : ℕ) :
    (∀ state', Visits I hasStopStrings maxSeqLen n state state' →
      state'.Within maxSeqLen datums) ∧
    ∀ state' left, loop I hasStopStrings maxSeqLen n state = .ok (state', left) →
      state'.Within maxSeqLen datums := by
  have hstep : ∀ s s' left, s.Within maxSeqLen datums → s.active.isEmpty = false →
      (BatchRollout.turn I hasStopStrings maxSeqLen s).map (fun s => (s, false)) =
        .ok (s', left) → s'.Within maxSeqLen datums := by
    intro s s' left hs _ hturn
    cases hresult : BatchRollout.turn I hasStopStrings maxSeqLen s with
    | error e =>
      rw [hresult] at hturn
      cases hturn
    | ok s'' =>
      rw [hresult] at hturn
      cases hturn
      exact hs.turn hkeeps hresult
  refine ⟨fun state' hvisit => (hvisit.invariant hstep h).1, fun state' left hloop => ?_⟩
  exact breakLoop_invariant hstep n h hloop

end Loop

end BatchRollout

/-! ## A sample alone -/

/-- The prompts and the responses to them fit into the window. -/
def AsyncInterfaces.KeepsWindow (I : AsyncInterfaces Tok Lp Info Stop F Acc) (maxSeqLen : ℕ) :
    Prop :=
  ∀ ids stopStrings, ids.length < maxSeqLen → ids.length +
    (BatchRollout.generatedPart ids.length (I.generateAsync ids stopStrings)).length ≤ maxSeqLen

/-- What is counted of the tokens of a sample. -/
def TurnCounts.tokenCounts (counts : TurnCounts) : TokenCounts :=
  ⟨counts.assistantTokenCount, counts.envTokenCount, counts.totalTokenCount⟩

theorem length_cutObservation {maxSeqLen inputLength genTokenCount : ℕ}
    (h : inputLength + genTokenCount ≤ maxSeqLen) (tokenizedObs : List Tok) :
    inputLength + genTokenCount +
        (cutObservation maxSeqLen inputLength genTokenCount tokenizedObs).1.length ≤ maxSeqLen ∧
      ((cutObservation maxSeqLen inputLength genTokenCount tokenizedObs).2 = false →
        inputLength + genTokenCount +
          (cutObservation maxSeqLen inputLength genTokenCount tokenizedObs).1.length <
            maxSeqLen) := by
  unfold cutObservation
  dsimp only
  split
  · constructor
    · split
      · rw [List.length_take]
        omega
      · simpa using h
    · intro hfalse
      cases hfalse
  · dsimp only
    exact ⟨by omega, fun _ => by omega⟩

namespace SampleRollout
variable [Add F] [Zero Acc] [Add Acc] {maxSeqLen : ℕ}

/-- A turn with the generator and the environments of this turn. A generator that raises ends
the rollout. -/
def turnOf (I : ℕ → Option (AsyncInterfaces Tok Lp Info Stop F Acc)) (maxSeqLen : ℕ)
    (taskName : String) (state : State Tok Lp Info Stop Acc) :
    Except PyError (State Tok Lp Info Stop Acc × Bool) :=
  match I state.counts.turnCount with
  | none => .ok ({ state with counts := state.counts.begin }, true)
  | some I => turn I maxSeqLen taskName state

/-- A reward changes neither the messages nor the counts. -/
theorem addReward_same {I : AsyncInterfaces Tok Lp Info Stop F Acc}
    {state state' : State Tok Lp Info Stop Acc} {reward : Reward F}
    (h : State.addReward I state reward = .ok state') :
    state'.messageLog = state.messageLog ∧ state'.counts = state.counts ∧
      state'.truncated = state.truncated := by
  unfold State.addReward at h
  split at h
  · dsimp only at h
    generalize (if state.rewardAccList.isEmpty = true then _ else _ : List Acc) = acc at h
    split at h
    · cases h
    · rw [Except.ok.injEq] at h
      exact h ▸ ⟨rfl, rfl, rfl⟩
  · simp only [bind, bind_eq_ok, pure, Except.pure, Except.ok.injEq] at h
    obtain ⟨number, -, rfl⟩ := h
    exact ⟨rfl, rfl, rfl⟩

/-- A turn appends a response and an observation, or ends the rollout as it is. -/
theorem turn_cases {I : AsyncInterfaces Tok Lp Info Stop F Acc}
    (hkeeps : I.KeepsWindow maxSeqLen) {taskName : String}
    {state state' : State Tok Lp Info Stop Acc} {left : Bool}
    (hfit : ColumnsFit state.messageLog) (hlt : (logTokens state.messageLog).length < maxSeqLen)
    (h : turn I maxSeqLen taskName state = .ok (state', left)) :
    state' = { state with counts := state.counts.begin } ∨
      ∃ exchange, Turned maxSeqLen state.messageLog state'.messageLog state.counts.tokenCounts
        state'.counts.tokenCounts state'.truncated exchange := by
  cases hempty : state.messageLog.isEmpty with
  | true =>
    left
    simp only [turn, asyncGenerateResponseForSampleTurn, hempty, if_true, Except.ok.injEq,
      Prod.mk.injEq] at h
    exact h.1.symm
  | false =>
    right
    have hne : state.messageLog ≠ [] := List.isEmpty_eq_false_iff.mp hempty
    let begun : State Tok Lp Info Stop Acc := { state with counts := state.counts.begin }
    obtain ⟨messageLog', hgenerate, herase, hfit', -⟩ :=
      asyncGenerateResponse_spec I begun.toTurnState hne hfit
    let output := I.generateAsync (logTokens state.messageLog) state.stopStrings
    let response := plainResponse I.decode (logTokens state.messageLog).length output
    have hwindow : (logTokens state.messageLog).length + response.tokenIds.length ≤ maxSeqLen :=
      hkeeps (logTokens state.messageLog) state.stopStrings hlt
    unfold turn at h
    dsimp only at h
    simp only [begun] at hgenerate
    rw [hgenerate] at h
    simp only [bind, bind_eq_ok, pure, Except.pure, Except.ok.injEq, Prod.mk.injEq] at h
    obtain ⟨envOutput, -, rewarded, hreward, rfl, -⟩ := h
    obtain ⟨hlog, hcounts, htruncated⟩ := addReward_same hreward
    let cut := cutObservation maxSeqLen (logTokens state.messageLog).length
      response.tokenIds.length (I.tokenizer envOutput.observationContent)
    obtain ⟨hle, hroom⟩ := length_cutObservation hwindow
      (I.tokenizer envOutput.observationContent)
    obtain ⟨heraseObs, hfitObs, -⟩ := observationMessage_spec hfit' envOutput.observationRole
      envOutput.observationContent cut.1
    let exchange : Exchange Tok Lp :=
      { response := response
        observation :=
          { role := envOutput.observationRole
            content := envOutput.observationContent
            tokenIds := cut.1 } }
    have hmessages : eraseRoutes (messageLog' ++ [observationMessage messageLog'
        envOutput.observationRole envOutput.observationContent cut.1]) =
        eraseRoutes state.messageLog ++ exchange.messages := by
      rw [heraseObs, herase, List.append_assoc]
      rfl
    have hlength := length_logTokens_turn hmessages
    have hlog' : rewarded.messageLog = messageLog' := hlog
    simp only [TurnState.takeObservation, hlog']
    refine ⟨exchange, rfl, hmessages, hfitObs, ?_, ?_, ?_⟩
    · rw [hcounts]
      rfl
    · rw [hlength]
      exact hle
    · intro hfull
      rw [hlength]
      exact hroom (Bool.or_eq_false_iff.mp hfull).2

/-- A sample between two turns: what is counted, and whether it has room for a response. -/
structure State.Within (maxSeqLen : ℕ) (prompt : List (RolloutMessage Tok Lp))
    (state : State Tok Lp Info Stop Acc) : Prop where
  accounted : Accounted maxSeqLen prompt state.messageLog state.counts.tokenCounts
  columnsFit : ColumnsFit state.messageLog
  lt : state.truncated = false → (logTokens state.messageLog).length < maxSeqLen

/-- A sample before its first turn. -/
def State.ofDatum (datum : Datum Tok Info Stop) : State Tok Lp Info Stop Acc :=
  ⟨TurnState.ofDatum datum, [], false⟩

/-- The loop over the turns of a sample, with a generator and environments for every turn. -/
def loopOf (I : ℕ → Option (AsyncInterfaces Tok Lp Info Stop F Acc)) (maxSeqLen : ℕ)
    (taskName : String) :
    ℕ → State Tok Lp Info Stop Acc → Except PyError (State Tok Lp Info Stop Acc × Bool) :=
  breakLoop (fun state => state.done) (turnOf I maxSeqLen taskName)

/-- The states from which a sample takes a turn. -/
def Visits (I : ℕ → Option (AsyncInterfaces Tok Lp Info Stop F Acc)) (maxSeqLen : ℕ)
    (taskName : String) :
    ℕ → State Tok Lp Info Stop Acc → State Tok Lp Info Stop Acc → Prop :=
  BreakVisits (fun state => state.done) (turnOf I maxSeqLen taskName)

/-- With the same generator and the same environments in every turn this is the loop. -/
theorem loopOf_const (I : AsyncInterfaces Tok Lp Info Stop F Acc) (maxSeqLen : ℕ)
    (taskName : String) :
    loopOf (fun _ => some I) maxSeqLen taskName =
      (loop I maxSeqLen taskName : ℕ → State Tok Lp Info Stop Acc → _) := rfl

omit [Add F] [Add Acc] in
theorem within_ofDatum {datum : Datum Tok Info Stop}
    (h : (flatTokens datum.messageLog).length < maxSeqLen) :
    (State.ofDatum datum : State Tok Lp Info Stop Acc).Within maxSeqLen
      (BatchRollout.promptMessages datum.messageLog) := by
  have htokens : logTokens (BatchRollout.promptMessages datum.messageLog :
      List (RolloutMessage Tok Lp)) = flatTokens datum.messageLog :=
    logTokens_promptMessages datum.messageLog
  refine ⟨⟨?_, [], Accounts.refl _⟩, columnsFit_promptMessages datum.messageLog, fun _ => ?_⟩
  · exact (congrArg List.length htokens).trans_le h.le
  · exact (congrArg List.length htokens).trans_lt h

/-- A turn keeps what is counted, and a sample that is not truncated has room. -/
theorem State.Within.turnOf {I : ℕ → Option (AsyncInterfaces Tok Lp Info Stop F Acc)}
    (hkeeps : ∀ k J, I k = some J → J.KeepsWindow maxSeqLen) {taskName : String}
    {prompt : List (RolloutMessage Tok Lp)} {state state' : State Tok Lp Info Stop Acc}
    {left : Bool} (h : state.Within maxSeqLen prompt) (hdone : state.done = false)
    (hturn : SampleRollout.turnOf I maxSeqLen taskName state = .ok (state', left)) :
    state'.Within maxSeqLen prompt := by
  have htruncated : state.truncated = false := (Bool.or_eq_false_iff.mp hdone).2
  have hbegun : ({ state with counts := state.counts.begin } : State Tok Lp Info Stop Acc).Within
      maxSeqLen prompt := ⟨h.accounted, h.columnsFit, h.lt⟩
  unfold SampleRollout.turnOf at hturn
  cases hI : I state.counts.turnCount with
  | none =>
    rw [hI] at hturn
    cases hturn
    exact hbegun
  | some J =>
    rw [hI] at hturn
    rcases turn_cases (hkeeps _ J hI) h.columnsFit (h.lt htruncated) hturn with
      rfl | ⟨exchange, hturned⟩
    · exact hbegun
    · exact ⟨hturned.accounted h.accounted, hturned.columnsFit, hturned.lt⟩

/-- Wherever a sample takes a turn it has room for a response, and after any number of turns
everything is counted. -/
theorem loop_within {I : ℕ → Option (AsyncInterfaces Tok Lp Info Stop F Acc)}
    (hkeeps : ∀ k J, I k = some J → J.KeepsWindow maxSeqLen) (taskName : String)
    {prompt : List (RolloutMessage Tok Lp)} {state : State Tok Lp Info Stop Acc}
    (h : state.Within maxSeqLen prompt) (n : ℕ) :
    (∀ state', Visits I maxSeqLen taskName n state state' →
      ShortPrompt maxSeqLen state'.messageLog) ∧
    ∀ state' left, loopOf I maxSeqLen taskName n state = .ok (state', left) →
      state'.Within maxSeqLen prompt := by
  have hstep : ∀ s s' left, s.Within maxSeqLen prompt → s.done = false →
      SampleRollout.turnOf I maxSeqLen taskName s = .ok (s', left) →
        s'.Within maxSeqLen prompt :=
    fun s s' left hs hdone hturn => hs.turnOf hkeeps hdone hturn
  refine ⟨fun state' hvisit => ?_, fun state' left hloop => breakLoop_invariant hstep n h hloop⟩
  obtain ⟨hwithin, hdone⟩ := hvisit.invariant hstep h
  exact hwithin.columnsFit.shortPrompt (hwithin.lt (Bool.or_eq_false_iff.mp hdone).2)

end SampleRollout

/-! ## Both rollouts -/

section Both
variable [Add F] [Zero F] [Zero Acc] [Add Acc]

open BatchRollout in
/-- With a generator that keeps the window every response is generated from a prompt that leaves
room for it, and an observation never has less than no room. After any number of turns the
messages of every sample fit into the window, and its counts are the numbers of the tokens
behind its prompt. -/
theorem rollouts_within_window (maxSeqLen : ℕ)
    (B : BatchRollout.Interfaces Tok Lp Info Stop Ans F)
    (hB : B.KeepsWindow maxSeqLen) (I : ℕ → Option (AsyncInterfaces Tok Lp Info Stop F Acc))
    (hI : ∀ k J, I k = some J → J.KeepsWindow maxSeqLen) (inputBatch : InputBatch Tok Info Stop)
    (hprompts : ∀ datum ∈ inputBatch.rows, (flatTokens datum.messageLog).length < maxSeqLen)
    (n : ℕ) :
    (∀ state, Visits B inputBatch.hasStopStrings maxSeqLen n (State.ofBatch inputBatch) state →
      (∀ row ∈ state.activeBatch, ShortPrompt maxSeqLen row.messageLog) ∧
      ∀ generated, BatchRollout.generateResponses B inputBatch.hasStopStrings state.turnIndex
          state.activeBatch = .ok generated →
        ∀ p ∈ generated, 0 ≤ tokensLeftForObs maxSeqLen p.2) ∧
    (∀ state left, loop B inputBatch.hasStopStrings maxSeqLen n (State.ofBatch inputBatch) =
        .ok (state, left) →
      List.Forall₂ (fun datum row => Row.AccountedFor maxSeqLen datum row) inputBatch.rows
        state.rows) ∧
    ∀ datum ∈ inputBatch.rows,
      let start : SampleRollout.State Tok Lp Info Stop Acc := SampleRollout.State.ofDatum datum
      (∀ state, SampleRollout.Visits I maxSeqLen datum.taskName n start state →
        ShortPrompt maxSeqLen state.messageLog) ∧
      ∀ state left, SampleRollout.loopOf I maxSeqLen datum.taskName n start =
          .ok (state, left) →
        Accounted maxSeqLen (promptMessages datum.messageLog) state.messageLog
          state.counts.tokenCounts := by
  obtain ⟨hvisits, hloop⟩ := BatchRollout.loop_within hB inputBatch.hasStopStrings
    (within_ofBatch hprompts) n
  refine ⟨fun state hvisit => ?_, fun state left hrun => ?_, fun datum hdatum => ?_⟩
  · have hactive := (hvisits state hvisit).activeBatch
    refine ⟨fun row hrow => (hactive row hrow).1.shortPrompt (hactive row hrow).2, ?_⟩
    intro generated hgenerated
    exact tokensLeftForObs_nonneg hB (fun row hrow => (hactive row hrow).1)
      (fun row hrow => (hactive row hrow).2) hgenerated
  · have hwithin := hloop state left hrun
    rw [List.forall₂_iff_get]
    refine ⟨hwithin.length.symm, fun i hi hi' => ?_⟩
    exact hwithin.accounted i _ _ (List.getElem?_eq_getElem hi) (List.getElem?_eq_getElem hi')
  · intro start
    have hstart : start.Within maxSeqLen (promptMessages datum.messageLog) :=
      SampleRollout.within_ofDatum (hprompts datum hdatum)
    obtain ⟨hvisitsAlone, hloopAlone⟩ := SampleRollout.loop_within hI datum.taskName hstart n
    exact ⟨hvisitsAlone, fun state left hrun => (hloopAlone state left hrun).accounted⟩

theorem le_length_oneMoreToken (ids : List ℕ) : ids.length + 1 ≤ (ids ++ [7]).length := by simp

theorem length_logprobs_oneMoreToken (ids : List ℕ) :
    ∀ logprobs ∈ (none : Option (List Unit)), logprobs.length = (ids ++ [7]).length := by simp

/-- The output of a generator that appends one token. -/
def oneMoreToken (ids : List ℕ) : AsyncOutput ℕ Unit where
  outputIds := ids ++ [7]
  unpaddedSequenceLength := ids.length + 1
  logprobs := none
  routedExperts := none
  truncated := none
  genLeaderWorkerIdx := none
  le_length := le_length_oneMoreToken ids
  length_logprobs := length_logprobs_oneMoreToken ids

/-- A batch with this generator, and observations of two tokens. -/
def oneMoreTokenBatch : BatchRollout.Interfaces ℕ Unit Unit String Unit ℤ where
  generate _ input :=
    match input.inputIds with
    | .stacked rows => .ok (List.zipWith (fun row n => oneMoreToken (row.take n)) rows
        input.inputLengths)
    | .unstacked _ => .error ⟨.typeError, "expected a Tensor"⟩
  decode _ := "a"
  tokenizer _ := [8, 8]
  padTokenId := 0
  taskToEnv _ _ := some (TaskEnvironments.pointwise
    { step := fun _ _ => ⟨("environment", "b"), none, none, .number 1, false, none⟩
      givesStopStrings := false
      givesAnswers := false })

/-- A sample alone with this generator, and the same observations. -/
def oneMoreTokenAlone : AsyncInterfaces ℕ Unit Unit String ℤ ℤ where
  generateAsync ids _ := oneMoreToken ids
  decode _ := "a"
  tokenizer _ := [8, 8]
  padTokenId := 0
  taskToEnv _ := some
    { numComponents := none
      step := fun _ _ => ⟨"environment", "b", none, none, .scalar 1, false⟩
      numComponents_step := fun _ _ => rfl }
  item := id
  tensor := id

theorem oneMoreToken_part (ids : List ℕ) {n : ℕ} (h : ids.length ≤ n) :
    (BatchRollout.generatedPart n (oneMoreToken ids)).length ≤ 1 := by
  simp only [BatchRollout.generatedPart, oneMoreToken, slice, List.length_take]
  omega

theorem oneMoreTokenBatch_keepsWindow : oneMoreTokenBatch.KeepsWindow 6 := by
  intro turnIndex input outputs houtputs hlengths p hp
  simp only [oneMoreTokenBatch] at houtputs
  split at houtputs
  · rename_i rows _
    rw [Except.ok.injEq] at houtputs
    subst houtputs
    obtain ⟨i, hi⟩ := List.mem_iff_getElem?.mp hp
    obtain ⟨hn, houtput⟩ := List.getElem?_zip_eq_some.mp hi
    have hlt := hlengths p.1 (List.mem_of_getElem? hn)
    rw [List.getElem?_zipWith, hn] at houtput
    cases hrow : rows[i]? with
    | none => simp [hrow] at houtput
    | some row =>
      simp only [hrow, Option.some.injEq] at houtput
      have hpart := oneMoreToken_part (row.take p.1) (List.length_take_le p.1 row)
      rw [← houtput]
      omega
  · cases houtputs

theorem oneMoreTokenAlone_keepsWindow : oneMoreTokenAlone.KeepsWindow 6 := by
  intro ids stopStrings hlt
  have hpart := oneMoreToken_part ids le_rfl
  simp only [oneMoreTokenAlone]
  omega

/-- Prompts of one token and of three tokens. -/
def twoPrompts : InputBatch ℕ Unit String where
  rows := [⟨[⟨"user", "c", [1]⟩], (), "task", none⟩, ⟨[⟨"user", "d", [2, 3, 4]⟩], (), "task", none⟩]
  hasStopStrings := false
  noStopStrings := by simp

/-- The sample with the longer prompt after its only turn alone. -/
def oneMoreTokenFinal : SampleRollout.State ℕ Unit Unit String ℤ where
  messageLog := [⟨"user", "d", [2, 3, 4], none, none⟩, ⟨"assistant", "a", [7], none, none⟩,
    ⟨"environment", "b", [8, 8], none, none⟩]
  extraEnvInfo := ()
  stopStrings := none
  totalReward := 1
  terminated := false
  truncated := true
  counts := ⟨1, 3, 1, 2, [1], [3], [4], []⟩
  rewardAccList := []
  multiRewardSeen := false

theorem oneMoreTokenAlone_loop :
    SampleRollout.loopOf (fun _ => some oneMoreTokenAlone) 6 "task" 3
        (SampleRollout.State.ofDatum ⟨[⟨"user", "d", [2, 3, 4]⟩], (), "task", none⟩) =
      .ok (oneMoreTokenFinal, true) := by
  have hturn : SampleRollout.turnOf (fun _ => some oneMoreTokenAlone) 6 "task"
      (SampleRollout.State.ofDatum ⟨[⟨"user", "d", [2, 3, 4]⟩], (), "task", none⟩) =
        .ok (oneMoreTokenFinal, false) := by
    simp only [SampleRollout.turnOf, SampleRollout.turn]
    rw [show SampleRollout.asyncGenerateResponseForSampleTurn oneMoreTokenAlone _ =
      .ok (_, 1, 3) from rfl]
    simp only [bind, Except.bind]
    rw [stepEnvironment_some rfl]
    rfl
  exact (breakLoop_of_step rfl hturn 2).trans (breakLoop_of_done rfl 1)

/-- Both samples fill the window, one of them with an observation that is cut. The other one
does so alone as well. -/
theorem rollouts_within_window_filled :
    (∃ state left, BatchRollout.loop oneMoreTokenBatch false 6 3
        (BatchRollout.State.ofBatch twoPrompts) = .ok (state, left) ∧
      state.rows.map (fun row => (logTokens row.messageLog).length) = [6, 6] ∧
      List.Forall₂ (fun datum row => BatchRollout.Row.AccountedFor 6 datum row) twoPrompts.rows
        state.rows) ∧
    ∃ datum ∈ twoPrompts.rows, ∃ state left,
      SampleRollout.loopOf (fun _ => some oneMoreTokenAlone) 6 datum.taskName 3
        (SampleRollout.State.ofDatum datum) = .ok (state, left) ∧
      (logTokens state.messageLog).length = 6 ∧
      Accounted 6 (BatchRollout.promptMessages datum.messageLog) state.messageLog
        state.counts.tokenCounts := by
  have hkeeps : ∀ (k : ℕ) J, some oneMoreTokenAlone = some J → J.KeepsWindow 6 := by
    intro k J hJ
    cases hJ
    exact oneMoreTokenAlone_keepsWindow
  obtain ⟨-, hloop, halone⟩ := rollouts_within_window 6 oneMoreTokenBatch
    oneMoreTokenBatch_keepsWindow (fun _ => some oneMoreTokenAlone) hkeeps twoPrompts
    (by decide) 3
  refine ⟨⟨_, _, rfl, rfl, hloop _ _ rfl⟩, _, List.mem_of_getElem? (i := 1) rfl, ?_⟩
  have hrun := (halone _ (List.mem_of_getElem? (i := 1) rfl)).2
  exact ⟨oneMoreTokenFinal, true, oneMoreTokenAlone_loop, rfl,
    hrun oneMoreTokenFinal true oneMoreTokenAlone_loop⟩

end Both

end NemoRL.Experience
