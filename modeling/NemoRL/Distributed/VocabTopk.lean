import NemoRL.Distributed.ModelUtils
import NemoRL.Lib.Blocks
import NemoRL.Lib.TopK
import Mathlib.Algebra.Ring.Defs

/-!
# The largest logits over a sharded vocabulary

Each rank holds of every row of the logits the entries of its part of the vocabulary. To find
the largest entries of the whole rows, each rank takes the largest of its own, and all ranks
choose among what they gather. The second call reads the logits at given indices, which each
rank does for its own part, and adds up.

Both go through the sequence in chunks. The conversion of a chunk to single precision is left
out. A call on one rank is a function of what all ranks hold.

## Main definitions

* `ShardedLogits` — what the ranks hold.
* `distributedVocabTopk` — the largest logits with their indices in the vocabulary.
* `gatherLogitsAtGlobalIndices` — the logits at indices in the vocabulary.
-/

namespace NemoRL.Distributed

open Lib

/-- Logits with the vocabulary in equal parts on several ranks: the row of a rank for a position
of the batch and the sequence. -/
structure ShardedLogits (K : Type) where
  worldSize : ℕ
  batch : ℕ
  seqLen : ℕ
  vLocal : ℕ
  row : ℕ → ℕ → ℕ → List K
  length_row : ∀ rank b s, (row rank b s).length = vLocal

/-- The whole row of a position. -/
def ShardedLogits.fullRow {K : Type} (x : ShardedLogits K) (b s : ℕ) : List K :=
  (List.range x.worldSize).flatMap fun rank => x.row rank b s

/-- An entry of a tensor by its position of the batch and the sequence. -/
def entry {β : Type} (t : List (List β)) (b s : ℕ) : Option β := t[b]?.bind fun seq => seq[s]?

/-! ## Chunks -/

/-- The chunks of a sequence. -/
def seqChunks (seqLen chunkSize : ℕ) : List (ℕ × ℕ) :=
  (List.range ((seqLen + chunkSize - 1) / chunkSize)).map fun i =>
    (i * chunkSize, min seqLen (i * chunkSize + chunkSize))

/-- Compute the chunks of a sequence and put them together. A tensor of no chunk is asked for
its first one. -/
def overChunks {β : Type} (batch seqLen : ℕ) (chunkSize : Option ℕ)
    (chunk : ℕ → ℕ → Except PyError (List (List β))) : Except PyError (List (List β)) :=
  let chunkSize := chunkSize.getD seqLen
  if chunkSize = 0 then .error ⟨.valueError, "range() arg 3 must not be zero"⟩
  else do
    let chunks ← (seqChunks seqLen chunkSize).mapM fun p => chunk p.1 p.2
    if chunks = [] then throw ⟨.indexError, "list index out of range"⟩
    return (List.range batch).map fun b => chunks.flatMap fun chunk => chunk.getD b []

/-! ## The largest logits -/

section Topk
variable {K : Type} [LinearOrder K]

/-- The largest entries of a row and where they are. -/
def torchTopk (k : ℕ) (row : List K) : Except PyError (List K × List ℕ) :=
  if row.length < k then .error ⟨.runtimeError, "selected index k out of range"⟩
  else
    let picked := topK Prod.fst k row.zipIdx
    .ok (picked.map Prod.fst, picked.map Prod.snd)

/-- What a rank contributes for a position. -/
def localTopk (x : ShardedLogits K) (k : ℕ) (vocabStartIndex : ℕ → ℕ) (b s rank : ℕ) :
    Except PyError (List K × List ℤ) := do
  let (localVals, localIdxLocal) ← torchTopk (min k x.vLocal) (x.row rank b s)
  return (localVals, localIdxLocal.map fun (i : ℕ) => (i : ℤ) + vocabStartIndex rank)

/-- What all ranks choose for a position. -/
def positionTopk (x : ShardedLogits K) (k : ℕ) (vocabStartIndex : ℕ → ℕ) (b s : ℕ) :
    Except PyError (List K × List ℤ) := do
  let gathered ← (List.range x.worldSize).mapM (localTopk x k vocabStartIndex b s)
  let allVals := gathered.flatMap Prod.fst
  let allIdx := gathered.flatMap Prod.snd
  let kEff := min k (max 1 (x.vLocal * x.worldSize))
  let (selVals, selPos) ← torchTopk kEff allVals
  return (selVals, selPos.map fun (pos : ℕ) => allIdx.getD pos 0)

/-- The largest logits of each position with their indices in the vocabulary, on one rank. -/
def distributedVocabTopk (x : ShardedLogits K) (k : ℕ) (vocabStartIndex vocabEndIndex : ℕ → ℕ)
    (chunkSize : Option ℕ) (rank : ℕ) :
    Except PyError (List (List (List K)) × List (List (List ℤ))) :=
  if vocabEndIndex rank ≤ vocabStartIndex rank then .error ⟨.assertionError, ""⟩
  else do
    let topk ← overChunks x.batch x.seqLen chunkSize fun s0 s1 =>
      (List.range x.batch).mapM fun b =>
        (List.range' s0 (s1 - s0)).mapM (positionTopk x k vocabStartIndex b)
    return (topk.map fun seq => seq.map Prod.fst, topk.map fun seq => seq.map Prod.snd)

end Topk

/-! ## The logits at given indices -/

section Gather
variable {K : Type} [Ring K]

/-- What a rank reads for an index: zero where the index is of another rank. -/
def localLogit (x : ShardedLogits K) (vocabStartIndex vocabEndIndex : ℕ → ℕ) (b s : ℕ)
    (globalIndex : ℤ) (rank : ℕ) : Except PyError K :=
  let inRange := (vocabStartIndex rank : ℤ) ≤ globalIndex ∧ globalIndex < vocabEndIndex rank
  let li := min (max (globalIndex - vocabStartIndex rank) 0) ((x.vLocal : ℤ) - 1)
  match if li < 0 then none else (x.row rank b s)[li.toNat]? with
  | none =>
    .error ⟨.runtimeError,
      s!"index {li} is out of bounds for dimension 2 with size {x.vLocal}"⟩
  | some val => .ok (val * if inRange then 1 else 0)

/-- The logits of a position at some indices, summed over the ranks. -/
def positionLogits (x : ShardedLogits K) (vocabStartIndex vocabEndIndex : ℕ → ℕ) (b s : ℕ)
    (globalIndices : List ℤ) : Except PyError (List K) :=
  globalIndices.mapM fun globalIndex => do
    let localVals ← (List.range x.worldSize).mapM
      (localLogit x vocabStartIndex vocabEndIndex b s globalIndex)
    return localVals.sum

/-- The logits at the indices for the positions that one context-parallel rank holds. -/
def gatherLocalLogits (x : ShardedLogits K) (globalIndices : List (List (List ℤ)))
    (vocabStartIndex vocabEndIndex : ℕ → ℕ) (chunkSize : Option ℕ) :
    Except PyError (List (List (List K))) :=
  overChunks x.batch x.seqLen chunkSize fun s0 s1 =>
    (List.range x.batch).mapM fun b =>
      ((slice (globalIndices.getD b []) s0 s1).zipIdx s0).mapM fun p =>
        positionLogits x vocabStartIndex vocabEndIndex b p.2 p.1

/-- The logits at indices in the vocabulary. Each context-parallel rank holds a part of the
sequence, and the indices are given for the whole of it. A call without a tensor-parallel group
is one with a group of a single rank. -/
def gatherLogitsAtGlobalIndices (x : ℕ → ShardedLogits K)
    (globalIndices : List (List (List ℤ))) (vocabStartIndex vocabEndIndex : ℕ → ℕ)
    (chunkSize : Option ℕ) (cpRank cpSize : ℕ) : Except PyError (List (List (List K))) :=
  if 1 < cpSize then do
    let seqLen := (globalIndices.headD []).length
    let padLen := (x cpRank).seqLen * cpSize - seqLen
    let pad := List.replicate ((globalIndices.headD []).headD []).length 0
    let onRank := fun rank => globalIndices.map fun seq =>
      getTokensOnThisCpRank (seq ++ List.replicate padLen pad) rank cpSize
    let gathered ← (List.range cpSize).mapM fun rank =>
      gatherLocalLogits (x rank) (onRank rank) vocabStartIndex vocabEndIndex chunkSize
    return (List.range (x cpRank).batch).map fun b =>
      let seq := allgatherCpShardedTensor cpSize (gathered.map fun t => t.getD b [])
      seq.take (seq.length - padLen)
  else gatherLocalLogits (x cpRank) globalIndices vocabStartIndex vocabEndIndex chunkSize

end Gather

end NemoRL.Distributed
