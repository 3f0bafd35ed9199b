import Mathlib.Data.Int.Order.Basic
import NemoRL.Distributed.BatchedDataDict
import NemoRL.Distributed.ModelUtils

/-!
# Packed sequences for Megatron

The sequences of a microbatch follow each other in one packed sequence. Each is padded to a
multiple, and the last one takes up what is needed to pad the packed sequence. A
context-parallel rank holds the zig-zag slice of each padded sequence. The experts that the
tokens were routed to are laid out the same way by a function of its own, which knows the
running totals of the padded lengths only.

Lengths and multiples are natural numbers. A padded length is subtracted from another only
where a negative difference and zero both mean that nothing is padded.

## Main definitions

* `packSequencesForMegatron` — the packed tokens.
* `shardRoutedExpertsForCp` — the packed routes.
* `getPackSequenceParametersForMegatron` — the multiples and the length to pad to.
* `getMicrobatchIterator` — the micro-batches of a packed batch.
-/

namespace NemoRL.Megatron

open Lib Distributed

/-- Round up to a multiple. -/
def roundUpToMultiple (value multiple : ℕ) : Except PyError ℕ :=
  if multiple = 0 then .error ⟨.zeroDivisionError, "integer modulo by zero"⟩
  else if value % multiple ≠ 0 then .ok ((value + multiple - 1) / multiple * multiple)
  else .ok value

/-- An element of a tensor along its first dimension. -/
def entry {α : Type} (xs : List α) (i : ℕ) : Except PyError α :=
  match xs[i]? with
  | some x => .ok x
  | none => .error ⟨.indexError, "index is out of bounds for dimension 0"⟩

/-! ## Packing tokens -/

/-- How sequences and packed sequences are padded. -/
structure PackSequenceParameters where
  /-- Pad individual sequences to a multiple of this value. -/
  padIndividualSeqsToMultipleOf : ℕ := 1
  /-- Pad packed sequences to a multiple of this value. -/
  padPackedSeqToMultipleOf : ℕ := 1
  /-- Pad packed sequences to this value. -/
  padPackedSeqTo : Option ℕ := none
  deriving DecidableEq, Repr

/-- Whether any of the parameters asks for padding. -/
def PackSequenceParameters.needsPadding (params : PackSequenceParameters) : Bool :=
  params.padIndividualSeqsToMultipleOf > 1 || params.padPackedSeqToMultipleOf > 1 ||
    params.padPackedSeqTo.isSome

/-- The description of a packed sequence that the model is given. -/
structure PackedSeqParams where
  cuSeqlensQ : List ℕ
  cuSeqlensKv : List ℕ
  cuSeqlensQPadded : List ℕ
  cuSeqlensKvPadded : List ℕ
  maxSeqlenQ : ℤ
  maxSeqlenKv : ℤ
  qkvFormat : String
  totalTokens : ℕ
  deriving DecidableEq, Repr

/-- A packed microbatch. -/
structure PackedSequences (T : Type) where
  /-- The packed tokens of all ranks. -/
  allInputIds : List T
  /-- The packed tokens of the rank. -/
  packedInputIds : List T
  packedSeqParams : PackedSeqParams
  /-- The running totals of the lengths. -/
  cuSeqlens : List ℕ
  /-- The running totals of the padded lengths. -/
  cuSeqlensPadded : List ℕ
  deriving DecidableEq, Repr

/-- The check of the length to pad to. -/
def checkPadPackedSeqTo (params : PackSequenceParameters) : Except PyError Unit :=
  match params.padPackedSeqTo with
  | none => .ok ()
  | some padTo =>
    let multiple := params.padPackedSeqToMultipleOf
    if multiple = 0 then .error ⟨.zeroDivisionError, "integer modulo by zero"⟩
    else if padTo % multiple = 0 then .ok ()
    else .error ⟨.assertionError, s!"pad_packed_seq_to ({padTo}) is not a multiple of " ++
      s!"pad_packed_seq_to_multiple_of ({multiple})."⟩

/-- The length of each sequence with its length rounded up, when there is padding. -/
def sequenceLengths (seqLengths : List ℕ) (batchSize : ℕ) (params : PackSequenceParameters) :
    Except PyError (List (ℕ × ℕ)) :=
  (List.range batchSize).mapM fun b => do
    let seqLen ← entry seqLengths b
    if params.needsPadding then
      let paddedSeqLen ← roundUpToMultiple seqLen params.padIndividualSeqsToMultipleOf
      return (seqLen, paddedSeqLen)
    else return (seqLen, seqLen)

/-- Replace the last running total by the length of the padded packed sequence. -/
def padLastTotal (params : PackSequenceParameters) (cuSeqlensPadded : List ℕ) :
    Except PyError (List ℕ) :=
  match params.padPackedSeqTo with
  | some padTo => .ok (cuSeqlensPadded.dropLast ++ [padTo])
  | none =>
    if params.padPackedSeqToMultipleOf > 1 then do
      let total ← roundUpToMultiple (cuSeqlensPadded.getLastD 0) params.padPackedSeqToMultipleOf
      return cuSeqlensPadded.dropLast ++ [total]
    else .ok cuSeqlensPadded

/-- The running totals of the padded lengths, which are those of the lengths when nothing is
padded. -/
def paddedTotals (params : PackSequenceParameters) (lengths : List (ℕ × ℕ)) :
    Except PyError (List ℕ) :=
  if params.needsPadding then padLastTotal params (cumulative 0 (lengths.map Prod.snd))
  else .ok (cumulative 0 (lengths.map Prod.fst))

/-- The largest difference of two running totals. -/
def maxSeqlen (cuSeqlens : List ℕ) : Except PyError ℤ :=
  match ((bounds cuSeqlens).map fun p => (p.2 : ℤ) - p.1).max? with
  | some seqlen => .ok seqlen
  | none => .error ⟨.runtimeError, "max(): Expected reduction dim to be specified for " ++
      "input.numel() == 0. Specify the reduction dim with the 'dim' argument."⟩

/-- Pad a sequence that is shorter than its padded length. -/
def padSequence {α : Type} (pad : α) (seqLen paddedSeqLen : ℕ) (tokens : List α) : List α :=
  if seqLen < paddedSeqLen then tokens ++ List.replicate (paddedSeqLen - seqLen) pad else tokens

/-- The padded length of a sequence behind `runningSeqLen` tokens. The last sequence takes up
the padding of the packed sequence. -/
def paddedSeqLen (params : PackSequenceParameters) (isLast : Bool) (runningSeqLen seqLen : ℕ) :
    Except PyError ℕ :=
  let padFactor := params.padIndividualSeqsToMultipleOf
  if isLast && params.needsPadding then
    match params.padPackedSeqTo with
    | some padTo => .ok (padTo - runningSeqLen)
    | none =>
      if params.padPackedSeqToMultipleOf > 1 then do
        let padded ← roundUpToMultiple seqLen padFactor
        let total ← roundUpToMultiple (runningSeqLen + padded) params.padPackedSeqToMultipleOf
        return total - runningSeqLen
      else roundUpToMultiple seqLen padFactor
  else roundUpToMultiple seqLen padFactor

/-- The padded sequences, behind `runningSeqLen` tokens. -/
def padSequences {T : Type} [Zero T] (params : PackSequenceParameters) (runningSeqLen : ℕ) :
    List (List T × ℕ) → Except PyError (List (List T))
  | [] => .ok []
  | (row, seqLen) :: rest => do
    let padded ← paddedSeqLen params rest.isEmpty runningSeqLen seqLen
    let others ← padSequences params (runningSeqLen + padded) rest
    return padSequence 0 seqLen padded (row.take seqLen) :: others

/-- How much the packed sequence is padded when its sequences are not. -/
def padLen (params : PackSequenceParameters) (currentSeqLen : ℕ) : Except PyError ℕ :=
  if params.needsPadding then
    match params.padPackedSeqTo with
    | some padTo => .ok (padTo - currentSeqLen)
    | none =>
      if params.padPackedSeqToMultipleOf > 1 then do
        let padThisSeqTo ← roundUpToMultiple currentSeqLen params.padPackedSeqToMultipleOf
        return padThisSeqTo - currentSeqLen
      else .ok 0
  else .ok 0

/-- The packed tokens of all ranks and those of the rank. -/
def packTokens {T : Type} [Zero T] (rows : List (List T × ℕ)) (params : PackSequenceParameters)
    (cpRank cpSize : ℕ) : Except PyError (List T × List T) :=
  if params.padIndividualSeqsToMultipleOf > 1 then do
    let padded ← padSequences params 0 rows
    return (padded.flatten, (padded.map fun tokens =>
      if cpSize > 1 then getTokensOnThisCpRank tokens cpRank cpSize else tokens).flatten)
  else do
    let tokens := (rows.map fun row => row.1.take row.2).flatten
    let padLen ← padLen params tokens.length
    let packed := tokens ++ List.replicate padLen 0
    return (packed, packed)

/-- Pack the sequences of a microbatch. -/
def packSequencesForMegatron {T : Type} [Zero T] (inputIds : List (List T))
    (seqLengths : List ℕ) (params : PackSequenceParameters) (cpRank cpSize : ℕ) :
    Except PyError (PackedSequences T) := do
  checkPadPackedSeqTo params
  let lengths ← sequenceLengths seqLengths inputIds.length params
  let cuSeqlens := cumulative 0 (lengths.map Prod.fst)
  let cuSeqlensPadded ← paddedTotals params lengths
  let maxSeqlen ← maxSeqlen cuSeqlensPadded
  let (allInputIds, packedInputIds) ←
    packTokens (inputIds.zip (lengths.map Prod.fst)) params cpRank cpSize
  let packedSeqParams : PackedSeqParams :=
    { cuSeqlensQ := cuSeqlensPadded
      cuSeqlensKv := cuSeqlensPadded
      cuSeqlensQPadded := cuSeqlensPadded
      cuSeqlensKvPadded := cuSeqlensPadded
      maxSeqlenQ := maxSeqlen
      maxSeqlenKv := maxSeqlen
      qkvFormat := "thd"
      totalTokens := packedInputIds.length }
  return ⟨allInputIds, packedInputIds, packedSeqParams, cuSeqlens, cuSeqlensPadded⟩

/-! ## Packing routes -/

/-- The experts of the tokens of a batch, in each layer of experts. -/
structure RoutedExperts where
  numMoeLayers : ℕ
  topk : ℕ
  rows : List (List (List (List ℤ)))
  shape : ∀ row ∈ rows, ∀ token ∈ row,
    token.length = numMoeLayers ∧ ∀ route ∈ token, route.length = topk

/-- The routes of a padded position. -/
def RoutedExperts.padRow (routedExperts : RoutedExperts) : List (List ℤ) :=
  List.replicate routedExperts.numMoeLayers ((List.range routedExperts.topk).map Int.ofNat)

/-- The sequence of a token, its position and whether it is valid. -/
structure TokenId where
  batchIdx : ℤ
  tokenPos : ℤ
  valid : ℤ
  deriving DecidableEq, Repr

/-- The identity of a padded position. -/
def TokenId.pad : TokenId := ⟨0, 0, 0⟩

/-- The routes and the identities of all ranks and those of the rank. -/
structure ShardedRoutes where
  routedPacked : Option (List (List (List ℤ)))
  routedCpSharded : Option (List (List (List ℤ)))
  identityPacked : Option (List TokenId)
  identityCpSharded : Option (List TokenId)
  deriving DecidableEq, Repr

/-- The difference of the running totals of a sequence. -/
def paddedLen (cuSeqlens : List ℕ) (cuSeqlensPadded : Option (List ℕ)) (b : ℕ) :
    Except PyError ℕ := do
  let totals := cuSeqlensPadded.getD cuSeqlens
  let stop ← entry totals (b + 1)
  let start ← entry totals b
  return stop - start

/-- A padded sequence and what the rank holds of it. -/
def shardSequence {α : Type} (pad : α) (rows : List (List α))
    (b seqLen paddedLen cpRank cpSize : ℕ) : Except PyError (List α × List α) := do
  let row ← entry rows b
  let padded := padSequence pad seqLen paddedLen (row.take seqLen)
  return (padded, if cpSize > 1 then getTokensOnThisCpRank padded cpRank cpSize else padded)

/-- Concatenate tensors. -/
def catTensors {α : Type} (tensors : List (List α)) : Except PyError (List α) :=
  if tensors.isEmpty then
    .error ⟨.runtimeError, "torch.cat(): expected a non-empty list of Tensors"⟩
  else .ok tensors.flatten

/-- The routes and the identities of one sequence. -/
def shardRoutedSequence (routedExperts : Option RoutedExperts)
    (tokenIdentity : Option (List (List TokenId))) (seqLengths cuSeqlens : List ℕ)
    (cuSeqlensPadded : Option (List ℕ)) (cpRank cpSize b : ℕ) :
    Except PyError (Option (List (List (List ℤ)) × List (List (List ℤ))) ×
      Option (List TokenId × List TokenId)) := do
  let seqLen ← entry seqLengths b
  let paddedLen ← paddedLen cuSeqlens cuSeqlensPadded b
  let re ← routedExperts.mapM fun re =>
    shardSequence re.padRow re.rows b seqLen paddedLen cpRank cpSize
  let id ← tokenIdentity.mapM fun id =>
    shardSequence TokenId.pad id b seqLen paddedLen cpRank cpSize
  return (re, id)

/-- Lay out the routes and the identities of the tokens like the packed tokens. -/
def shardRoutedExpertsForCp (routedExperts : Option RoutedExperts)
    (tokenIdentity : Option (List (List TokenId))) (seqLengths cuSeqlens : List ℕ)
    (cuSeqlensPadded : Option (List ℕ)) (cpRank cpSize : ℕ) : Except PyError ShardedRoutes := do
  let parts ← (List.range seqLengths.length).mapM (shardRoutedSequence routedExperts
    tokenIdentity seqLengths cuSeqlens cuSeqlensPadded cpRank cpSize)
  let routed := parts.filterMap Prod.fst
  let identity := parts.filterMap Prod.snd
  let routedPacked ← routedExperts.mapM fun _ => catTensors (routed.map Prod.fst)
  let routedCpSharded ← routedExperts.mapM fun _ => catTensors (routed.map Prod.snd)
  let identityPacked ← tokenIdentity.mapM fun _ => catTensors (identity.map Prod.fst)
  let identityCpSharded ← tokenIdentity.mapM fun _ => catTensors (identity.map Prod.snd)
  return ⟨routedPacked, routedCpSharded, identityPacked, identityCpSharded⟩

/-! ## Parameters -/

/-- The scaling recipe of FP8. -/
inductive Fp8Recipe
  | blockwise
  | mxfp8
  | other (name : String)
  deriving DecidableEq, Repr

/-- Configuration of FP8. -/
structure Fp8Config where
  enabled : Bool := false
  fp8Recipe : Option Fp8Recipe := none
  deriving DecidableEq, Repr

/-- The type of token dispatcher. -/
inductive MoeTokenDispatcherType
  | allgather
  | alltoall
  | flex
  deriving DecidableEq, Repr

/-- The backend of the flex dispatcher. -/
inductive MoeFlexDispatcherBackend
  | hybridep
  | other (name : String)
  deriving DecidableEq, Repr

/-- The part of the Megatron configuration that packing reads. -/
structure MegatronConfig where
  tensorModelParallelSize : ℕ
  sequenceParallel : Bool
  pipelineModelParallelSize : ℕ
  contextParallelSize : ℕ
  fp8Cfg : Option Fp8Config := none
  moeTokenDispatcherType : Option MoeTokenDispatcherType := none
  moeFlexDispatcherBackend : Option MoeFlexDispatcherBackend := none
  deriving DecidableEq, Repr

/-- A sequence is split over the context-parallel ranks, and over the tensor-parallel ranks
under sequence parallel. -/
def MegatronConfig.minimumPadFactor (cfg : MegatronConfig) : ℕ :=
  (if cfg.contextParallelSize > 1 then cfg.contextParallelSize * 2 else 1) *
    (if cfg.tensorModelParallelSize > 1 && cfg.sequenceParallel then cfg.tensorModelParallelSize
      else 1)

/-- What the packed sequence of a rank has to be divisible by. -/
def MegatronConfig.divisor (cfg : MegatronConfig) : Except PyError ℕ := do
  let fp8Cfg := cfg.fp8Cfg.getD {}
  let divisor ← if fp8Cfg.enabled then
      match fp8Cfg.fp8Recipe with
      | some .blockwise => pure (max 1 128)
      | some .mxfp8 => pure (max 1 32)
      | some (.other _) => pure (max 1 16)
      | none => .error ⟨.keyError, "'fp8_recipe'"⟩
    else pure 1
  if cfg.moeTokenDispatcherType = some .flex ∧ cfg.moeFlexDispatcherBackend = some .hybridep then
    return max divisor 128
  else return divisor

/-- The multiples and the length to pad to. Under pipeline parallelism all packed sequences
have the same length. -/
def getPackSequenceParametersForMegatron (cfg : MegatronConfig)
    (padIndividualSeqsToMultipleOf maxSeqLenInBatch : ℕ) :
    Except PyError PackSequenceParameters := do
  let minimumPadFactor := cfg.minimumPadFactor
  if padIndividualSeqsToMultipleOf % minimumPadFactor ≠ 0 then
    throw ⟨.assertionError, s!"make_sequence_length_divisible_by " ++
      s!"({padIndividualSeqsToMultipleOf}) is not a multiple of minimum_pad_factor " ++
      s!"({minimumPadFactor}).\nPlease set policy.make_sequence_length_divisible_by to a " ++
      s!"multiple of {minimumPadFactor}.\n    - If CP is enabled, the minimum pad factor is " ++
      "`cp_size * 2`.\n    - If TP+SP is enabled, the minimum pad factor is `tp_size`.\n" ++
      "    - If both are enabled, the minimum pad factor is `cp_size * 2 * tp_size`."⟩
  let divisor ← cfg.divisor
  let padPackedSeqToMultipleOf := if divisor > 1 then divisor * minimumPadFactor else 1
  if cfg.pipelineModelParallelSize > 1 then
    let padPackedSeqTo ← roundUpToMultiple maxSeqLenInBatch padPackedSeqToMultipleOf
    return ⟨padIndividualSeqsToMultipleOf, padPackedSeqToMultipleOf, some padPackedSeqTo⟩
  else return ⟨padIndividualSeqsToMultipleOf, padPackedSeqToMultipleOf, none⟩

/-! ## Micro-batches -/

/-- The micro-batches of a packed batch and how they are packed. The micro-batches are cut
while they are read. -/
structure MicrobatchIterator (ρ : Type) where
  rawIterator : Except PyError (List (BatchedDataDict ρ))
  dataIteratorLen : ℕ
  params : PackSequenceParameters

/-- The micro-batches of a batch under sequence packing. -/
def getMicrobatchIterator {ρ : Type} (data : BatchedDataDict ρ) (cfg : MegatronConfig)
    (makeSequenceLengthDivisibleBy : ℕ) : Except PyError (MicrobatchIterator ρ) := do
  let rawIterator := data.makeMicrobatchIteratorForPackableSequences
  let (dataIteratorLen, packSeqDimSize) ← data.getMicrobatchIteratorForPackableSequencesLen
  let params ← getPackSequenceParametersForMegatron cfg makeSequenceLengthDivisibleBy
    packSeqDimSize
  return ⟨rawIterator, dataIteratorLen, params⟩

/-- Pack a micro-batch whose rows have the given tokens and lengths. -/
def packMicrobatch {ρ T : Type} [Zero T] (inputIds : ρ → List T) (inputLengths : ρ → ℕ)
    (params : PackSequenceParameters) (cpRank cpSize : ℕ) (microbatch : BatchedDataDict ρ) :
    Except PyError (PackedSequences T) :=
  packSequencesForMegatron (microbatch.rows.map inputIds) (microbatch.rows.map inputLengths)
    params cpRank cpSize

end NemoRL.Megatron
