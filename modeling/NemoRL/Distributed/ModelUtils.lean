import Mathlib.Data.List.Rotate
import NemoRL.Error
import NemoRL.Lib.Except
import NemoRL.Lib.Layout
import NemoRL.Lib.ZigZag

/-!
# Log probabilities of packed sequences

Packed sequences follow each other, each padded, and a context-parallel rank holds the
zig-zag slice of each of them. A rank computes the log probabilities of its own positions,
gathers those of all ranks sequence by sequence, and unpacks them into one row per sequence.

The log probability of a token under a row of logits is a parameter, with the reduction over
the vocabulary shards, the filtering and the chunking in it. All ranks of a group run the
same code, so a collective call gives a rank what each rank passes to it at that point.

## Main definitions

* `getTokensOnThisCpRank` — the slice of a rank.
* `fromParallelLogitsToLogprobsPackedSequences` — the rows that a rank computes.
* `getNextTokenLogprobsFromLogits` — the log probabilities of one sequence.
* `serialLogprobs` — the rows in terms of the whole sequences.
-/

namespace NemoRL.Distributed

open Lib

/-! ## Context parallelism -/

section Shards
variable {α : Type}

/-- The tokens of a sequence that a context-parallel rank holds. -/
def getTokensOnThisCpRank (inputIds : List α) (cpRank cpSize : ℕ) : List α :=
  if cpSize = 1 then inputIds
  else
    let shardSize := inputIds.length / (cpSize * 2)
    [cpRank, cpSize * 2 - cpRank - 1].flatMap fun ind =>
      slice inputIds (ind * shardSize) ((ind + 1) * shardSize)

/-- Gather a sequence from what the ranks hold of it. -/
def allgatherCpShardedTensor (cpSize : ℕ) (tensors : List (List α)) : List α :=
  gather cpSize tensors

theorem getTokensOnThisCpRank_eq {cpSize : ℕ} (h : cpSize ≠ 1) (inputIds : List α) (cpRank : ℕ) :
    getTokensOnThisCpRank inputIds cpRank cpSize = zigzag cpRank cpSize inputIds := by
  simp [getTokensOnThisCpRank, h, zigzag, piece]

end Shards

/-! ## Packed log probabilities -/

section Packed
variable {L T R : Type} [Zero T] [Zero R] (logprob : L → T → R)

/-- What is raised when a slice is assigned a tensor of another size. -/
def sizeMismatch : PyError :=
  ⟨.runtimeError, "The expanded size of the tensor must match the existing size"⟩

/-- Roll the targets of each sequence and keep those of a rank. -/
def rolledTargets (target : List T) (cuSeqlensPadded : List ℕ) (cpRank cpSize : ℕ) :
    Except PyError (List T) :=
  let rolled := (bounds cuSeqlensPadded).foldlM (fun rolled p =>
    let rolledSeqTargets := (slice target p.1 p.2).rotate 1
    assignSlice rolled (p.1 / cpSize) (p.2 / cpSize)
      (getTokensOnThisCpRank rolledSeqTargets cpRank cpSize))
    (List.replicate (target.length / cpSize) 0)
  match rolled with
  | some rolled => .ok rolled
  | none => .error sizeMismatch

/-- The log probabilities of the positions of a rank. Targets that are rolled already belong
to the positions of the rank. -/
def localLogprobs (vocabParallelLogits : List L) (target : List T) (cuSeqlensPadded : List ℕ)
    (cpRank cpSize : ℕ) (targetIsPreRolled : Bool) : Except PyError (List R) := do
  let target ← if targetIsPreRolled then pure target
    else rolledTargets target cuSeqlensPadded cpRank cpSize
  if vocabParallelLogits.length = target.length then
    return List.zipWith logprob vocabParallelLogits target
  else throw ⟨.runtimeError, "The size of the logits must match the size of the target"⟩

/-- Gather the log probabilities of all ranks, sequence by sequence. -/
def gatherProbs (probs : List (List R)) (cuSeqlensPadded : List ℕ) (cpRank cpSize : ℕ) :
    Except PyError (List R) :=
  let own := probs.getD cpRank []
  if 1 < cpSize then
    let finalProbs := (bounds cuSeqlensPadded).foldlM (fun final p =>
      assignSlice final p.1 p.2 (allgatherCpShardedTensor cpSize
        (probs.map fun tensor => slice tensor (p.1 / cpSize) (p.2 / cpSize))))
      (List.replicate (own.length * cpSize) 0)
    match finalProbs with
    | some final => .ok final
    | none => .error sizeMismatch
  else .ok own

/-- The row of a sequence: its log probabilities without the last one, whose target is the
first token, cut or filled up with zeros. -/
def unpackRow (probs : List R) (unpackedSeqlen : ℕ) (p : ℕ × ℕ) : List R :=
  if p.2 - p.1 > 0 then
    let seqProbs := slice probs p.1 (p.2 - 1)
    let seqLen := min seqProbs.length (unpackedSeqlen - 1)
    seqProbs.take seqLen ++ List.replicate (unpackedSeqlen - 1 - seqLen) 0
  else List.replicate (unpackedSeqlen - 1) 0

/-- The log probabilities of packed sequences, one row per sequence, on a context-parallel
rank. The logits and the targets are those that each rank was called with. -/
def fromParallelLogitsToLogprobsPackedSequences (vocabParallelLogits : ℕ → List L)
    (target : ℕ → List T) (cuSeqlensPadded : List ℕ) (unpackedSeqlen cpRank cpSize : ℕ)
    (targetIsPreRolled : Bool) : Except PyError (List (List R)) := do
  let probs ← (List.range cpSize).mapM fun rank =>
    localLogprobs logprob (vocabParallelLogits rank) (target rank) cuSeqlensPadded rank cpSize
      targetIsPreRolled
  let probs ← gatherProbs probs cuSeqlensPadded cpRank cpSize
  if unpackedSeqlen = 0 then
    throw ⟨.runtimeError, "Trying to create tensor with negative dimension -1"⟩
  return (bounds cuSeqlensPadded).map (unpackRow probs unpackedSeqlen)

end Packed

/-! ## Log probabilities of one sequence -/

section Sequence
variable {L T R : Type} [Zero T] (logprob : L → T → R)

/-- The log probabilities of the positions that a rank holds of a sequence. -/
def localTargetLogprobs (vocabParallelLogits : List L) (target : List T) (cpRank cpSize : ℕ) :
    Except PyError (List R) :=
  let target := target.rotate 1
  let padLen := vocabParallelLogits.length * cpSize - target.length
  let target := getTokensOnThisCpRank (target ++ List.replicate padLen 0) cpRank cpSize
  if vocabParallelLogits.length = target.length then
    .ok (List.zipWith logprob vocabParallelLogits target)
  else .error ⟨.runtimeError, "The size of the logits must match the size of the target"⟩

/-- The log probabilities of the tokens of a sequence after the first one, gathered from the
ranks. The logits are those that each rank was called with. -/
def fromParallelLogitsToLogprobs (vocabParallelLogits : ℕ → List L) (target : List T)
    (cpRank cpSize : ℕ) : Except PyError (List R) := do
  let padLen := (vocabParallelLogits cpRank).length * cpSize - target.length
  let logprobs ← (List.range cpSize).mapM fun rank =>
    localTargetLogprobs logprob (vocabParallelLogits rank) target rank cpSize
  let logprobs := if 1 < cpSize then allgatherCpShardedTensor cpSize logprobs
    else logprobs.getD cpRank []
  return (logprobs.take (logprobs.length - padLen)).dropLast

/-- The log probabilities of the tokens of a sequence after the first one. -/
def getNextTokenLogprobsFromLogits (nextTokenLogits : ℕ → List L) (inputIds : List T)
    (cpRank cpSize : ℕ) : Except PyError (List R) := do
  let logprobs ← fromParallelLogitsToLogprobs logprob nextTokenLogits inputIds cpRank cpSize
  -- the end of the slice is counted from the right when there are no tokens
  return if inputIds.length = 0 then logprobs.dropLast else logprobs.take (inputIds.length - 1)

end Sequence

/-! ## The rows in terms of the whole sequences -/

section Serial
variable {L T R : Type} [Zero R]

/-- The row of a sequence: at each position the log probability of the token after it, and
zero from the last token on. -/
def serialRow (logprob : L → T → R) (logits : List L) (tokens : List T) (unpackedSeqlen : ℕ)
    (p : ℕ × ℕ) : List R :=
  (List.range (unpackedSeqlen - 1)).map fun t =>
    if p.1 + t + 1 < p.2 then
      match logits[p.1 + t]?, tokens[p.1 + t + 1]? with
      | some row, some token => logprob row token
      | _, _ => 0
    else 0

/-- The rows of all sequences. -/
def serialLogprobs (logprob : L → T → R) (logits : List L) (tokens : List T)
    (cuSeqlensPadded : List ℕ) (unpackedSeqlen : ℕ) : List (List R) :=
  (bounds cuSeqlensPadded).map (serialRow logprob logits tokens unpackedSeqlen)

/-- What a rank holds of packed items: its slice of each sequence. -/
def packedOnRank {α : Type} (items : List α) (cuSeqlensPadded : List ℕ) (cpRank cpSize : ℕ) :
    List α :=
  (bounds cuSeqlensPadded).flatMap fun p =>
    getTokensOnThisCpRank (slice items p.1 p.2) cpRank cpSize

end Serial
end NemoRL.Distributed
