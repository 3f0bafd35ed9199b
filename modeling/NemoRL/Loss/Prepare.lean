import NemoRL.Distributed.ModelUtils
import NemoRL.Loss.Wrapper

/-!
# Preparing the input of a loss

The input of a loss on log probabilities is prepared from the logits of one sequence, or from
those of all sequences of a packed microbatch. With sampling parameters that filter the
vocabulary, the log probability of a token is another function, infinite for a token that was
filtered out, and a loss with a penalty on the divergence is also given the log probabilities
without filtering. A loss on precomputed log probabilities has no logits and is left out.

## Main definitions

* `prepareLossInput` — the input from the logits of one sequence.
* `preparePackedLossInput` — the input from the logits of a packed microbatch.
* `nllLossFn` — the negative log likelihood.
-/

namespace NemoRL.Loss

open Distributed Lib

variable {L T K : Type}

/-! ## Sampling -/

/-- Sampling parameters that filter the vocabulary: the log probability of a token, and
whether it is infinite. -/
structure Filtering (L T K : Type) where
  logprob : L → T → K
  isInf : K → Bool

/-- Set the log probabilities to zero that are masked or infinite. -/
def maskOutNegInfLogprobs [Field K] [DecidableEq K] (isInf : K → Bool)
    (logprobs mask : List K) : List K :=
  List.zipWith (fun logprob m =>
    if m * (if isInf logprob then 0 else 1) ≠ 0 then logprob else 0) logprobs mask

/-- The log probability of a token under a row of logits. -/
structure Model (L T K : Type) where
  logprob : L → T → K
  filtering : Option (Filtering L T K)
  /-- Whether the loss function has a penalty on the divergence. -/
  referencePolicyKlPenalty : Bool

/-- The log probability of a token with the sampling parameters. -/
def Model.samplingLogprob (model : Model L T K) : L → T → K :=
  match model.filtering with
  | some filtering => filtering.logprob
  | none => model.logprob

/-- Whether log probabilities without filtering are needed. -/
def Model.needsUnfiltered (model : Model L T K) : Bool :=
  model.filtering.isSome && model.referencePolicyKlPenalty

section Prepare
variable [Field K] [DecidableEq K] [Zero T] (model : Model L T K) (cpRank cpSize : ℕ)

/-- Mask out the infinite log probabilities of a row. -/
def Model.maskRow (logprobs : List K) (sample : Sample T K) : List K :=
  match model.filtering with
  | some filtering =>
    let mask := sample.tokenMask.map (· * sample.sampleMask)
    maskOutNegInfLogprobs filtering.isInf logprobs (mask.drop 1)
  | none => logprobs

/-! ## One sequence -/

/-- The input from the logits of one sequence. -/
def prepareLossInput (logits : ℕ → List L) (data : Sample T K) :
    Except PyError (List K × Sample T K) := do
  let logprobs ← getNextTokenLogprobsFromLogits model.samplingLogprob logits data.inputIds cpRank
    cpSize
  let logprobs := model.maskRow logprobs data
  if model.needsUnfiltered then
    let unfiltered ← getNextTokenLogprobsFromLogits model.logprob logits data.inputIds cpRank cpSize
    return (logprobs, data.withUnfiltered (some unfiltered))
  return (logprobs, data)

/-! ## All sequences -/

/-- A sequence with its padding. -/
def paddedSequence (inputIds : List T) (actualLen paddedLen : ℕ) : Except PyError (List T) :=
  match assignSlice (List.replicate paddedLen 0) 0 actualLen (inputIds.take actualLen) with
  | some seq => .ok seq
  | none => .error sizeMismatch

/-- The targets of a rank: each padded sequence, rolled and distributed over the ranks. -/
def packInputIds (inputIds : List (List T)) (cuSeqlensQ cuSeqlensQPadded : List ℕ)
    (cpRank cpSize : ℕ) : Except PyError (List T) := do
  let totalPackedLen := cuSeqlensQPadded.getLastD 0 / cpSize
  (List.range inputIds.length).foldlM (fun packed i => do
    let (start, stop) ← item (bounds cuSeqlensQ) i
    let (packedStart, packedStop) ← item (bounds cuSeqlensQPadded) i
    let actualLen := stop - start
    let paddedLen := packedStop - packedStart
    let seq ← paddedSequence (inputIds.getD i []) actualLen paddedLen
    let seq := seq.rotate 1
    let sharded := getTokensOnThisCpRank seq cpRank cpSize
    let shardStart := packedStart / cpSize
    let shardStop := (packedStart + paddedLen) / cpSize
    match assignSlice packed shardStart shardStop sharded with
    | some packed => return packed
    | none => throw sizeMismatch) (List.replicate totalPackedLen 0)

/-- The input from the logits of a packed microbatch. Without a row there is nothing to
unpack. -/
def preparePackedLossInput (cuSeqlensQ cuSeqlensQPadded : List ℕ) (logits : ℕ → List L)
    (data : List (Sample T K)) : Except PyError (List (List K) × List (Sample T K)) := do
  let inputIds := data.map Sample.inputIds
  let unpackedSeqlen := (inputIds.map List.length).headD 1
  let packedRolledTargets ← (List.range cpSize).mapM fun rank =>
    packInputIds inputIds cuSeqlensQ cuSeqlensQPadded rank cpSize
  let targets := fun rank => packedRolledTargets.getD rank []
  let logprobs ← fromParallelLogitsToLogprobsPackedSequences model.samplingLogprob logits targets
    cuSeqlensQPadded unpackedSeqlen cpRank cpSize true
  let logprobs := List.zipWith model.maskRow logprobs data
  if model.needsUnfiltered then
    let unfiltered ← fromParallelLogitsToLogprobsPackedSequences model.logprob logits targets
      cuSeqlensQPadded unpackedSeqlen cpRank cpSize true
    return (logprobs, List.zipWith (fun u sample => sample.withUnfiltered (some u)) unfiltered data)
  return (logprobs, data)

end Prepare

/-! ## Negative log likelihood -/

/-- The negative log likelihood of rows, by the count of the global batch. -/
def negLogLikelihood [Field K] (globalValidToks : K) (rows : List (Row K)) : K :=
  -maskedMean (rows.flatMap fun row => row.tokens.map Token.currLogprob) (rows.flatMap Row.mask)
    (some globalValidToks)

/-- The negative log likelihood of a batch. -/
def nllLossFn [Field K] (globalValidToks : K) : LossFn T K := fun nextTokenLogprobs data =>
  .ok (negLogLikelihood globalValidToks
    (List.zipWith (Sample.row false) nextTokenLogprobs data))

/-- Each row adds its own negative log likelihood. -/
theorem negLogLikelihood_eq_sum [Field K] (gt : K) (rows : List (Row K)) :
    negLogLikelihood gt rows = (rows.map fun row => negLogLikelihood gt [row]).sum := by
  have hrows := maskedMean_flatMap rows (fun row => row.tokens.map Token.currLogprob) Row.mask gt
    fun row => by simp [Row.mask]
  simp only [negLogLikelihood, List.flatMap_singleton, hrows]
  rw [List.sum_neg, List.map_map]
  rfl

end NemoRL.Loss
