import NemoRL.Environments.NemoGymSpec

/-!
# Stitched conversations

Each model call adds the prompt behind the tokens that were seen, and its generation. The tokens
that were seen are those of the messages so far, so that the messages up to a generation hold the
prompt and the generation of its call, and a call whose prompt does not start with them is refused.

## Main definitions

* `Stitched` — the messages of the calls of a conversation.

## Main results

* `NemoGym.postprocess_stitched` — the messages of a result are stitched, and a result that is
  not contiguous is refused.
-/

namespace NemoRL.Environments

open Lib

variable {Tok Lp Route R : Type}

/-! ## Contiguous calls -/

/-- The tokens that were seen after some calls. -/
def lastTokens (seen : List Tok) (calls : List (ModelCall Tok Lp Route)) : List Tok :=
  (calls.getLast?.map ModelCall.tokenIds).getD seen

theorem lastTokens_concat {seen : List Tok} {calls : List (ModelCall Tok Lp Route)}
    {call : ModelCall Tok Lp Route} : lastTokens seen (calls ++ [call]) = call.tokenIds := by
  simp [lastTokens]

theorem contiguous_concat {seen : List Tok} {calls : List (ModelCall Tok Lp Route)}
    {call : ModelCall Tok Lp Route} :
    Contiguous seen (calls ++ [call]) ↔
      Contiguous seen calls ∧ lastTokens seen calls <+: call.promptTokenIds := by
  induction calls generalizing seen with
  | nil => simp [Contiguous, lastTokens]
  | cons first calls ih =>
    have hlast : lastTokens first.tokenIds calls = lastTokens seen (first :: calls) := by
      cases calls with
      | nil => rfl
      | cons next calls => simp [lastTokens, List.getLast?_cons]
    rw [List.cons_append, Contiguous, Contiguous, ih, hlast, and_assoc]

/-! ## Stitched messages -/

/-- The tokens of messages. -/
def messageTokens (log : List (GymMessage Tok Lp Route)) : List Tok :=
  log.flatMap GymMessage.tokenIds

/-- The rows that a call reports. -/
def ModelCall.rows (call : ModelCall Tok Lp Route) : Option (List Route) :=
  match call.routedExperts with
  | some (.rows routes) => some routes
  | _ => none

/-- The routes of a message are the rows of its tokens, which are behind `start` others. -/
def RoutesOfTokens (call : ModelCall Tok Lp Route) (start : ℕ)
    (message : GymMessage Tok Lp Route) : Prop :=
  message.routedExperts =
      call.rows.map (fun rows => (rows.drop start).take message.tokenIds.length) ∧
    ∀ routes, message.routedExperts = some routes → routes.length = message.tokenIds.length

/-- The messages of a call, behind the messages before it. -/
structure CallStitched (log : List (GymMessage Tok Lp Route)) (i : ℕ)
    (call : ModelCall Tok Lp Route) (user assistant : GymMessage Tok Lp Route) : Prop where
  getElem?_user : log[2 * i]? = some user
  getElem?_assistant : log[2 * i + 1]? = some assistant
  role_user : user.role = "user"
  role_assistant : assistant.role = "assistant"
  generation : assistant.tokenIds = call.generationTokenIds
  tokens : messageTokens (log.take (2 * i + 2)) = call.tokenIds
  routes_user : RoutesOfTokens call (messageTokens (log.take (2 * i))).length user
  routes_assistant : RoutesOfTokens call (messageTokens (log.take (2 * i + 1))).length assistant

/-- The messages of the calls of a conversation. -/
structure Stitched (calls : List (ModelCall Tok Lp Route)) (log : List (GymMessage Tok Lp Route)) :
    Prop where
  length : log.length = 2 * calls.length
  tokens : messageTokens log = lastTokens [] calls
  call : ∀ i call, calls[i]? = some call → ∃ user assistant, CallStitched log i call user assistant

theorem CallStitched.append {log more : List (GymMessage Tok Lp Route)} {i : ℕ}
    {call : ModelCall Tok Lp Route} {user assistant : GymMessage Tok Lp Route}
    (h : CallStitched log i call user assistant) :
    CallStitched (log ++ more) i call user assistant := by
  have hlt : 2 * i + 1 < log.length := (List.getElem?_eq_some_iff.mp h.getElem?_assistant).1
  have htake : ∀ n, n ≤ 2 * i + 2 → (log ++ more).take n = log.take n :=
    fun n hn => List.take_append_of_le_length (by omega)
  refine ⟨?_, ?_, h.role_user, h.role_assistant, h.generation, ?_, ?_, ?_⟩
  · rw [List.getElem?_append_left (by omega)]
    exact h.getElem?_user
  · rw [List.getElem?_append_left hlt]
    exact h.getElem?_assistant
  · rw [htake _ le_rfl]
    exact h.tokens
  · rw [htake _ (by omega)]
    exact h.routes_user
  · rw [htake _ (by omega)]
    exact h.routes_assistant

/-- The messages of the last call. -/
theorem stitched_last {log : List (GymMessage Tok Lp Route)} {i : ℕ}
    {call : ModelCall Tok Lp Route} {user assistant : GymMessage Tok Lp Route}
    (hlength : log.length = 2 * i) (hroles : user.role = "user" ∧ assistant.role = "assistant")
    (hgeneration : assistant.tokenIds = call.generationTokenIds)
    (htokens : messageTokens (log ++ [user, assistant]) = call.tokenIds)
    (huser : RoutesOfTokens call (messageTokens log).length user)
    (hassistant : RoutesOfTokens call (messageTokens (log ++ [user])).length assistant) :
    CallStitched (log ++ [user, assistant]) i call user assistant := by
  refine ⟨?_, ?_, hroles.1, hroles.2, hgeneration, ?_, ?_, ?_⟩
  · rw [← hlength, List.getElem?_append_right le_rfl, Nat.sub_self]
    rfl
  · rw [← hlength, List.getElem?_append_right (Nat.le_succ _)]
    simp
  · rw [List.take_of_length_le (by simp [hlength])]
    exact htokens
  · rw [← hlength, List.take_left]
    exact huser
  · rw [← hlength, List.take_length_add_append]
    exact hassistant

/-- Rows between two positions are the routes of as many tokens. -/
theorem routesOfTokens_slice {call : ModelCall Tok Lp Route} {start stop : ℕ}
    {message : GymMessage Tok Lp Route}
    (hroutes : message.routedExperts = call.rows.map fun rows => NemoGym.slice rows start stop)
    (hlength : message.tokenIds.length = stop - start)
    (hrows : ∀ rows, call.rows = some rows → stop ≤ rows.length) :
    RoutesOfTokens call start message := by
  have heq : ∀ rows : List Route,
      NemoGym.slice rows start stop = (rows.drop start).take message.tokenIds.length := by
    intro rows
    rw [NemoGym.slice, List.drop_take, hlength]
  refine ⟨by simp only [hroutes, heq], fun routes h => ?_⟩
  rw [hroutes] at h
  obtain ⟨rows, hcall, rfl⟩ := Option.map_eq_some_iff.mp h
  rw [heq, List.length_take, List.length_drop, hlength]
  have hle := hrows rows hcall
  omega

namespace NemoGym
variable (self : NemoGym) (decode : List Tok → String)

/-- Accepted routes are those of the call, with a row for each of its tokens. -/
theorem routedExperts_ok {call : ModelCall Tok Lp Route} {routes : Option (List Route)}
    (h : self.routedExperts call = .ok routes) :
    routes = call.rows ∧ ∀ rows, call.rows = some rows → call.tokenIds.length ≤ rows.length := by
  unfold routedExperts at h
  unfold ModelCall.rows
  split at h
  case h_1 => cases h
  case h_2 routes' hroutes =>
    rw [hroutes]
    dsimp only at h
    split at h
    case isTrue => cases h
    case isFalse hlength =>
      obtain rfl := Except.ok.inj h
      refine ⟨rfl, fun rows hrows => ?_⟩
      obtain rfl := Option.some.inj hrows
      rw [ModelCall.tokenIds, List.length_append]
      omega
  case h_3 hroutes =>
    rw [hroutes]
    split at h
    case isTrue => cases h
    case isFalse =>
      obtain rfl := Except.ok.inj h
      refine ⟨rfl, fun rows hrows => ?_⟩
      cases hrows

variable [DecidableEq Tok] [ToString Tok]

/-- A call whose prompt does not start with the tokens that were seen is refused. -/
theorem prefix_of_addCall {item : OutputItem Tok Lp Route} {call : ModelCall Tok Lp Route}
    {conversation conversation' : Conversation Tok Lp Route}
    (h : self.addCall decode item call conversation = .ok conversation') :
    conversation.seenTokenIds <+: call.promptTokenIds := by
  unfold addCall at h
  dsimp only at h
  rw [List.prefix_iff_eq_take]
  by_contra hseen
  rw [if_pos hseen] at h
  cases h

/-- A call adds its prompt behind the tokens that were seen, and its generation. -/
theorem stitched_addCall {item : OutputItem Tok Lp Route} {call : ModelCall Tok Lp Route}
    {calls : List (ModelCall Tok Lp Route)} {conversation conversation' : Conversation Tok Lp Route}
    (hlog : Stitched calls conversation.messageLog)
    (hseen : conversation.seenTokenIds = lastTokens [] calls)
    (h : self.addCall decode item call conversation = .ok conversation') :
    Stitched (calls ++ [call]) conversation'.messageLog ∧
      conversation'.seenTokenIds = call.tokenIds := by
  have hstart := self.prefix_of_addCall decode h
  cases hroutes : self.routedExperts call with
  | error e =>
    rw [self.addCall_of_error decode hstart hroutes] at h
    cases h
  | ok routes =>
    obtain ⟨user, assistant, hadd, huserIds, hassistantIds, huser, hassistant, hroles⟩ :=
      addCall_ok self decode hstart hroutes
    rw [hadd] at h
    obtain rfl := Except.ok.inj h
    obtain ⟨rfl, hrows⟩ := self.routedExperts_ok hroutes
    have hbefore : messageTokens conversation.messageLog = conversation.seenTokenIds := by
      rw [hlog.tokens, hseen]
    have hprompt : messageTokens (conversation.messageLog ++ [user]) = call.promptTokenIds := by
      obtain ⟨added, hadded⟩ := hstart
      rw [messageTokens, List.flatMap_append, ← messageTokens, hbefore, List.flatMap_singleton,
        huserIds, ← hadded, List.drop_left]
    have htokens : messageTokens (conversation.messageLog ++ [user, assistant]) =
        call.tokenIds := by
      rw [List.append_cons, messageTokens, List.flatMap_append, ← messageTokens, hprompt,
        List.flatMap_singleton, hassistantIds]
      rfl
    refine ⟨⟨?_, ?_, ?_⟩, rfl⟩
    · simp [hlog.length, Nat.mul_add]
    · rw [htokens, lastTokens_concat]
    · intro i c hc
      rcases Nat.lt_or_ge i calls.length with hi | hi
      · rw [List.getElem?_append_left hi] at hc
        obtain ⟨u, a, hcall⟩ := hlog.call i c hc
        exact ⟨u, a, hcall.append⟩
      · obtain ⟨hlt, hget⟩ := List.getElem?_eq_some_iff.mp hc
        rw [List.length_append, List.length_singleton] at hlt
        obtain rfl : i = calls.length := by omega
        obtain rfl : call = c := by simpa using hget
        have hlength : ∀ rows, call.rows = some rows →
            call.promptTokenIds.length + call.generationTokenIds.length ≤ rows.length := by
          intro rows hcall
          rw [← List.length_append]
          exact hrows rows hcall
        refine ⟨user, assistant, stitched_last hlog.length hroles hassistantIds htokens ?_ ?_⟩
        · rw [hbefore]
          refine routesOfTokens_slice huser (by rw [huserIds, List.length_drop]) ?_
          exact fun rows hcall => (Nat.le_add_right _ _).trans (hlength rows hcall)
        · rw [hprompt]
          refine routesOfTokens_slice hassistant ?_ hlength
          rw [hassistantIds, Nat.add_sub_cancel_left]

/-- The items so far have stitched messages, and their tokens were seen. -/
theorem foldlM_addItem_stitched {items : List (OutputItem Tok Lp Route)}
    {conversation : Conversation Tok Lp Route}
    (h : items.foldlM (self.addItem decode) ⟨[], []⟩ = .ok conversation) :
    Contiguous [] (modelCalls items) ∧ Stitched (modelCalls items) conversation.messageLog ∧
      conversation.seenTokenIds = lastTokens [] (modelCalls items) := by
  refine foldlM_invariant (P := fun items (conversation : Conversation Tok Lp Route) =>
    Contiguous [] (modelCalls items) ∧ Stitched (modelCalls items) conversation.messageLog ∧
      conversation.seenTokenIds = lastTokens [] (modelCalls items)) h ?_ ?_
  · exact ⟨trivial, ⟨rfl, rfl, fun i call hcall => by simp [modelCalls] at hcall⟩, rfl⟩
  · rintro before item after conversation conversation' - ⟨hcontiguous, hlog, hseen⟩ hitem
    rw [modelCalls, List.filterMap_append, ← modelCalls]
    unfold addItem at hitem
    cases hcall : item.call with
    | none =>
      rw [hcall] at hitem
      obtain rfl := Except.ok.inj hitem
      simp only [List.filterMap_cons, hcall, List.filterMap_nil, List.append_nil]
      exact ⟨hcontiguous, hlog, hseen⟩
    | some call =>
      rw [hcall] at hitem
      simp only [List.filterMap_cons, hcall, List.filterMap_nil]
      have hstart := self.prefix_of_addCall decode hitem
      obtain ⟨hstitched, htokens⟩ := self.stitched_addCall decode hlog hseen hitem
      refine ⟨contiguous_concat.mpr ⟨hcontiguous, hseen ▸ hstart⟩, hstitched, ?_⟩
      rw [htokens, lastTokens_concat]

/-- The messages of a result are those of its calls, stitched without loss. A result with a call
whose prompt does not start with the tokens before it is refused. -/
theorem postprocess_stitched (result : GymResult Tok Lp Route R) :
    (∀ out, self.postprocessNemoGymToNemoRlResult decode result = .ok out →
      Stitched (modelCalls result.output) out.messageLog) ∧
    (¬Contiguous [] (modelCalls result.output) →
      ∃ e, self.postprocessNemoGymToNemoRlResult decode result = .error e) := by
  have hok : ∀ out, self.postprocessNemoGymToNemoRlResult decode result = .ok out →
      Contiguous [] (modelCalls result.output) ∧
        Stitched (modelCalls result.output) out.messageLog := by
    intro out h
    obtain ⟨conversation, hconversation, h⟩ := bind_eq_ok.mp h
    obtain rfl := Except.ok.inj h
    obtain ⟨hcontiguous, hlog, -⟩ := self.foldlM_addItem_stitched decode hconversation
    exact ⟨hcontiguous, hlog⟩
  refine ⟨fun out h => (hok out h).2, fun hnot => ?_⟩
  cases hout : self.postprocessNemoGymToNemoRlResult decode result with
  | error e => exact ⟨e, rfl⟩
  | ok out => exact absurd (hok out hout).1 hnot

/-- Two calls with the call of a tool between them. -/
def toolConversation : GymResult ℕ ℕ ℕ ℕ where
  output := [⟨"message", [], [], some ⟨[1, 2], [3], [0], none⟩⟩,
    ⟨"function_call_output", [], [], none⟩,
    ⟨"message", [some "ok"], [], some ⟨[1, 2, 3, 4], [5], [0], some (.rows [9, 8, 7, 6, 5])⟩⟩]
  reward := 1

theorem postprocess_stitched_toolConversation :
    ∃ out, postprocessNemoGymToNemoRlResult ⟨none, none, false, 1, Nat.one_pos⟩ (fun _ => "")
        toolConversation = .ok out ∧
      out.messageLog.map GymMessage.tokenIds = [[1, 2], [3], [4], [5]] ∧
      Stitched (modelCalls toolConversation.output) out.messageLog := by
  refine ⟨_, rfl, rfl, ?_⟩
  exact (postprocess_stitched ⟨none, none, false, 1, Nat.one_pos⟩ (fun _ => "")
    toolConversation).1 _ rfl

end NemoGym
end NemoRL.Environments
