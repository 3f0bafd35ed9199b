import Mathlib.Data.List.Chain
import NemoRL.Environments.NemoGymSpec
import NemoRL.Generation.PrefixTokens

/-!
# Token-monotonic conversations

In a conversation every prompt comes from the tokens of the turn before it. It extends them, by
an end-of-sequence token where they have none at their end and by the template's tokens behind
that turn. So the output items of a conversation are contiguous.

Two cases are apart from the turn's generation: an empty generation leaves the end of its
prompt, and a turn without tokens leaves the whole template.

## Main results

* `Turn.conversation_monotonic` — every prompt extends the turn before it, and the conversation
  is not refused for its tokens.
-/

namespace NemoRL.Generation

open Lib Environments

variable {Tok : Type} [DecidableEq Tok] [ToString Tok]

/-- A turn of a conversation: the tokens of the template for it, the prompt that came of them
and what the model generated. -/
structure Turn (Tok : Type) where
  templatePrefixTokenIds : List Tok
  templateTokenIds : List Tok
  promptTokenIds : List Tok
  generationTokenIds : List Tok
  deriving DecidableEq, Repr

namespace Turn

/-- The tokens that the model saw and generated. -/
def tokenIds (turn : Turn Tok) : List Tok := turn.promptTokenIds ++ turn.generationTokenIds

/-- The prompt of a turn comes from the tokens of the turn before it. -/
def Follows (tokenizer : Tokenizer Tok) (previous turn : Turn Tok) : Prop :=
  replacePrefixTokens tokenizer previous.tokenIds turn.templatePrefixTokenIds
    turn.templateTokenIds = .ok turn.promptTokenIds

instance (tokenizer : Tokenizer Tok) (previous turn : Turn Tok) :
    Decidable (previous.Follows tokenizer turn) :=
  inferInstanceAs (Decidable (_ = _))

/-- The prompt of a turn is the tokens of the turn before it and the tokens that were added. -/
structure Extends (tokenizer : Tokenizer Tok) (previous turn : Turn Tok) : Prop where
  prefix_prompt : previous.tokenIds <+: turn.promptTokenIds
  prompt_of_ne_nil : previous.tokenIds ≠ [] →
    ∃ eos pos, tokenizer.eosTokenId = some eos ∧
      IsLastPosition eos turn.templateTokenIds turn.templatePrefixTokenIds.length pos ∧
      turn.promptTokenIds = previous.tokenIds ++
        (if previous.tokenIds.getLast? = some eos then [] else [eos]) ++
        turn.templateTokenIds.drop (pos + 1)
  prompt_of_nil : previous.tokenIds = [] → turn.promptTokenIds = turn.templateTokenIds

/-- A turn that comes from another one extends it. -/
theorem Follows.extends {tokenizer : Tokenizer Tok} {previous turn : Turn Tok}
    (h : previous.Follows tokenizer turn) : previous.Extends tokenizer turn := by
  by_cases hnil : previous.tokenIds = []
  · have hprompt : turn.promptTokenIds = turn.templateTokenIds := by
      unfold Follows replacePrefixTokens at h
      rw [if_pos hnil] at h
      exact (Except.ok.inj h).symm
    refine ⟨?_, fun hne => absurd hnil hne, fun _ => hprompt⟩
    rw [hnil]
    exact List.nil_prefix
  · obtain ⟨eos, pos, heos, hpos, hprompt⟩ := replacePrefixTokens_spec hnil h
    refine ⟨?_, fun _ => ⟨eos, pos, heos, hpos, hprompt⟩, fun h => absurd h hnil⟩
    rw [hprompt, List.append_assoc]
    exact List.prefix_append _ _

/-- In every conversation each prompt extends the turn before it by the tokens that the template
adds, and the output items of the conversation are not refused for their tokens. -/
theorem conversation_monotonic {Lp Route R : Type} (tokenizer : Tokenizer Tok)
    (self : NemoGym) (decode : List Tok → String) (turns : List (Turn Tok))
    (hturns : turns.IsChain (Follows tokenizer)) (result : GymResult Tok Lp Route R)
    (hresult : (modelCalls result.output).map
        (fun call => (call.promptTokenIds, call.generationTokenIds)) =
      turns.map fun turn => (turn.promptTokenIds, turn.generationTokenIds)) :
    turns.IsChain (Extends tokenizer) ∧
    ∀ e, self.postprocessNemoGymToNemoRlResult decode result = .error e →
      e.kind = .valueError ∧
      ∃ call ∈ modelCalls result.output, self.routedExperts call = .error e := by
  have hextends : turns.IsChain (Extends tokenizer) :=
    hturns.imp fun _ _ h => h.extends
  refine ⟨hextends, fun e he => ?_⟩
  have hchain : (turns.map fun turn => (turn.promptTokenIds, turn.generationTokenIds)).IsChain
      fun a b => a.1 ++ a.2 <+: b.1 :=
    (List.isChain_map _).mpr (hextends.imp fun _ _ h => h.prefix_prompt)
  rw [← hresult] at hchain
  have hcalls : (modelCalls result.output).IsChain fun a b => a.tokenIds <+: b.promptTokenIds :=
    (List.isChain_map _).mp hchain
  have hcontiguous := contiguous_of_isChain hcalls [] fun _ _ => List.nil_prefix
  obtain ⟨call, hmem, hcall⟩ := self.postprocess_error decode hcontiguous he
  exact ⟨self.routedExperts_error hcall, call, hmem, hcall⟩

/-- A tokenizer whose end-of-sequence token is 2. -/
def eosTwo : Tokenizer ℕ := ⟨some 2, fun _ => ""⟩

/-- Two turns, of which the first generated no end-of-sequence token. -/
def twoTurns : List (Turn ℕ) :=
  [⟨[], [11, 12], [11, 12], [220, 17]⟩,
    ⟨[11, 12, 1001, 2], [11, 12, 1001, 2, 21], [11, 12, 220, 17, 2, 21], [30, 2]⟩]

/-- The result of the two turns. -/
def twoTurnsResult : GymResult ℕ ℕ ℕ ℕ where
  output := twoTurns.map fun turn =>
    { type := "message"
      content := []
      summary := []
      call := some ⟨turn.promptTokenIds, turn.generationTokenIds, [], none⟩ }
  reward := 1

theorem conversation_monotonic_twoTurns :
    twoTurns.IsChain (Extends eosTwo) ∧
    ∀ e, NemoGym.postprocessNemoGymToNemoRlResult ⟨none, none, false, 1, le_refl 1⟩
        (fun _ => "") twoTurnsResult = .error e →
      e.kind = .valueError ∧
      ∃ call ∈ modelCalls twoTurnsResult.output,
        NemoGym.routedExperts ⟨none, none, false, 1, le_refl 1⟩ call = .error e :=
  conversation_monotonic eosTwo _ _ twoTurns
    (List.isChain_cons_cons.mpr ⟨by decide, List.isChain_singleton _⟩) _ (by decide)

/-- Whether the prompt ends with an end-of-sequence token matters where the generation is
empty: no such token is added then, although the generation has none at its end. -/
theorem emptyGeneration_addsNoEos :
    ¬ ∀ (tokenizer : Tokenizer ℕ) (previous turn : Turn ℕ) (eos pos : ℕ),
      tokenizer.eosTokenId = some eos → previous.Follows tokenizer turn →
      IsLastPosition eos turn.templateTokenIds turn.templatePrefixTokenIds.length pos →
      turn.promptTokenIds = previous.tokenIds ++
        (if previous.generationTokenIds.getLast? = some eos then [] else [eos]) ++
        turn.templateTokenIds.drop (pos + 1) := by
  intro h
  have hlast : IsLastPosition 2 [1, 2, 5] [1, 2].length 1 :=
    lastPosition_spec (by decide)
  have hprompt := h eosTwo ⟨[], [2], [2], []⟩ ⟨[1, 2], [1, 2, 5], [2, 5], []⟩ 2 1 rfl
    (by decide) hlast
  exact absurd hprompt (by decide)

end Turn
end NemoRL.Generation
