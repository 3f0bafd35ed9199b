import NemoRL.Environments.NemoGym

/-!
# What a conversation becomes

The prompt of a model call starts with the tokens of all calls before it. Then every call adds
two messages, and no call is refused for its tokens: what is left to raise is that its routed
experts are missing or malformed.

## Main results

* `NemoGym.postprocess_error` — a contiguous conversation is refused for routed experts only.
-/

namespace NemoRL.Environments

open Lib

variable {Tok Lp Route R : Type}

/-- The tokens that a model call saw and generated. -/
def ModelCall.tokenIds (call : ModelCall Tok Lp Route) : List Tok :=
  call.promptTokenIds ++ call.generationTokenIds

/-- Every prompt starts with the tokens that were seen before it. -/
def Contiguous : List Tok → List (ModelCall Tok Lp Route) → Prop
  | _, [] => True
  | seen, call :: calls => seen <+: call.promptTokenIds ∧ Contiguous call.tokenIds calls

/-- The model calls of output items. -/
def modelCalls (items : List (OutputItem Tok Lp Route)) : List (ModelCall Tok Lp Route) :=
  items.filterMap fun item => item.call

@[simp] theorem modelCalls_cons_none {item : OutputItem Tok Lp Route}
    {items : List (OutputItem Tok Lp Route)} (h : item.call = none) :
    modelCalls (item :: items) = modelCalls items := by
  simp [modelCalls, h]

@[simp] theorem modelCalls_cons_some {item : OutputItem Tok Lp Route}
    {call : ModelCall Tok Lp Route} {items : List (OutputItem Tok Lp Route)}
    (h : item.call = some call) :
    modelCalls (item :: items) = call :: modelCalls items := by
  simp [modelCalls, h]

/-- A conversation is contiguous if its calls follow one another. -/
theorem contiguous_of_isChain {calls : List (ModelCall Tok Lp Route)}
    (h : calls.IsChain fun a b => a.tokenIds <+: b.promptTokenIds) :
    ∀ seen, (∀ call, calls.head? = some call → seen <+: call.promptTokenIds) →
      Contiguous seen calls := by
  induction calls with
  | nil => intro _ _; trivial
  | cons call calls ih =>
    intro seen hseen
    cases calls with
    | nil => exact ⟨hseen call rfl, trivial⟩
    | cons next calls =>
      obtain ⟨hnext, hrest⟩ := List.isChain_cons_cons.mp h
      refine ⟨hseen call rfl, ih hrest call.tokenIds ?_⟩
      intro call' hcall'
      obtain rfl : next = call' := by simpa using hcall'
      exact hnext

namespace NemoGym
variable (self : NemoGym) (decode : List Tok → String)

/-- Routed experts are refused with a value error. -/
theorem routedExperts_error {call : ModelCall Tok Lp Route} {e : PyError}
    (h : self.routedExperts call = .error e) : e.kind = .valueError := by
  unfold routedExperts at h
  split at h
  · cases h; rfl
  · dsimp only at h
    split at h
    · cases h; rfl
    · cases h
  · split at h
    · cases h; rfl
    · cases h

variable [DecidableEq Tok] [ToString Tok]

/-- A call whose prompt starts with the tokens that were seen adds two messages. -/
theorem addCall_ok {item : OutputItem Tok Lp Route} {call : ModelCall Tok Lp Route}
    {conversation : Conversation Tok Lp Route} {routes : Option (List Route)}
    (hseen : conversation.seenTokenIds <+: call.promptTokenIds)
    (hroutes : self.routedExperts call = .ok routes) :
    ∃ userMessage assistantMessage : GymMessage Tok Lp Route,
      self.addCall decode item call conversation = .ok
        ⟨conversation.messageLog ++ [userMessage, assistantMessage], call.tokenIds⟩ ∧
      userMessage.tokenIds = call.promptTokenIds.drop conversation.seenTokenIds.length ∧
      assistantMessage.tokenIds = call.generationTokenIds ∧
      userMessage.routedExperts = routes.map (fun rows =>
        slice rows conversation.seenTokenIds.length call.promptTokenIds.length) ∧
      assistantMessage.routedExperts = routes.map (fun rows =>
        slice rows call.promptTokenIds.length
          (call.promptTokenIds.length + call.generationTokenIds.length)) ∧
      userMessage.role = "user" ∧ assistantMessage.role = "assistant" := by
  obtain ⟨added, hadded⟩ := hseen
  have htake : conversation.seenTokenIds =
      call.promptTokenIds.take conversation.seenTokenIds.length := by simp [← hadded]
  have htokens : conversation.seenTokenIds ++
      call.promptTokenIds.drop conversation.seenTokenIds.length ++ call.generationTokenIds =
      call.tokenIds := by simp [ModelCall.tokenIds, ← hadded]
  unfold addCall
  dsimp only
  rw [if_neg (not_not.mpr htake), hroutes, htokens]
  exact ⟨_, _, rfl, rfl, rfl, rfl, rfl, rfl, rfl⟩

/-- Such a call is refused if its routed experts are. -/
theorem addCall_of_error {item : OutputItem Tok Lp Route} {call : ModelCall Tok Lp Route}
    {conversation : Conversation Tok Lp Route} {e : PyError}
    (hseen : conversation.seenTokenIds <+: call.promptTokenIds)
    (hroutes : self.routedExperts call = .error e) :
    self.addCall decode item call conversation = .error e := by
  have htake := List.prefix_iff_eq_take.mp hseen
  unfold addCall
  dsimp only
  rw [if_neg (not_not.mpr htake), hroutes]

/-- The items of a contiguous conversation are refused for routed experts only. -/
theorem foldlM_addItem_error {items : List (OutputItem Tok Lp Route)} {e : PyError} :
    ∀ {conversation : Conversation Tok Lp Route},
      Contiguous conversation.seenTokenIds (modelCalls items) →
      items.foldlM (self.addItem decode) conversation = .error e →
      ∃ call ∈ modelCalls items, self.routedExperts call = .error e := by
  induction items with
  | nil => intro _ _ h; cases h
  | cons item items ih =>
    intro conversation hcontiguous h
    rw [List.foldlM_cons] at h
    cases hcall : item.call with
    | none =>
      rw [modelCalls_cons_none hcall] at hcontiguous ⊢
      have hitem : self.addItem decode conversation item = .ok conversation := by
        simp [addItem, hcall]
      rw [hitem] at h
      exact ih hcontiguous h
    | some call =>
      rw [modelCalls_cons_some hcall] at hcontiguous ⊢
      obtain ⟨hseen, hrest⟩ := hcontiguous
      have hitem : self.addItem decode conversation item =
          self.addCall decode item call conversation := by simp [addItem, hcall]
      rw [hitem] at h
      cases hroutes : self.routedExperts call with
      | error e' =>
        rw [self.addCall_of_error decode hseen hroutes] at h
        cases h
        exact ⟨call, List.mem_cons_self, hroutes⟩
      | ok routes =>
        obtain ⟨_, _, hadd, _⟩ :=
          addCall_ok self decode hseen hroutes
        rw [hadd] at h
        obtain ⟨call', hmem, herror⟩ := ih hrest h
        exact ⟨call', List.mem_cons_of_mem _ hmem, herror⟩

/-- A contiguous conversation is refused for routed experts only. -/
theorem postprocess_error {result : GymResult Tok Lp Route R} {e : PyError}
    (hcontiguous : Contiguous [] (modelCalls result.output))
    (h : self.postprocessNemoGymToNemoRlResult decode result = .error e) :
    ∃ call ∈ modelCalls result.output, self.routedExperts call = .error e := by
  cases hfold : result.output.foldlM (self.addItem decode) ⟨[], []⟩ with
  | error e' =>
    have he : e' = e := by
      simpa [postprocessNemoGymToNemoRlResult, hfold, bind, Except.bind] using h
    subst he
    exact self.foldlM_addItem_error decode hcontiguous hfold
  | ok conversation =>
    simp [postprocessNemoGymToNemoRlResult, hfold, bind, Except.bind, pure, Except.pure] at h

end NemoGym
end NemoRL.Environments
