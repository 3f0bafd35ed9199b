import NemoRL.Distributed.VocabTopk
import NemoRL.Lib.Scatter
import Mathlib.Algebra.BigOperators.Group.Finset.Basic
import Mathlib.Algebra.Field.Defs
import Mathlib.Data.Fintype.BigOperators

/-!
# Losses over a sharded vocabulary

Each rank of a group holds a part of the vocabulary of every row of logits. The functions here
reduce over the group what they need of a whole row: its maximum, the sum of its exponentials, and
the entries that only one rank has. Each comes with a backward pass that is written out, and most
go through the sequence in chunks. A rank holds the tokens from its rank times the size of its part
on, which is what every caller passes.

All ranks run the same code on a tensor of their own, so a function takes what all ranks hold, and
the result of a rank where the ranks differ. The exponential and the logarithm are parameters and
the conversions between floating point formats are left out.

## Main definitions

* `computeDistributedLogSoftmax` — the logarithm of the softmax of a row.
* `DistributedLogprob`, `ChunkedDistributedLogprob` — the log probabilities of tokens.
* `DistributedCrossEntropy`, `ChunkedDistributedEntropy`, `ChunkedDistributedGatherLogprob`.
-/

namespace NemoRL.Distributed

open Lib

/-- The rows of logits at all positions: for each rank, position in the batch and position in the
sequence, the part of the vocabulary that the rank holds. -/
abbrev VocabLogits (K : Type) (R B S V : ℕ) := Fin R → Fin B → Fin S → Fin V → K

/-! ## Reductions -/

section Reductions
variable {K : Type} {R V : ℕ}

/-- The largest of what the ranks pass to a call. -/
def allReduceMax [LinearOrder K] [NeZero R] (x : Fin R → K) : K :=
  Finset.univ.sup' Finset.univ_nonempty x

/-- The sum of what the ranks pass to a call. -/
def allReduceSum [AddCommMonoid K] (x : Fin R → K) : K := ∑ rank, x rank

/-- The largest entry of a row. -/
def amax [LinearOrder K] [NeZero V] (x : Fin V → K) : K := Finset.univ.sup' Finset.univ_nonempty x

variable [Field K] [LinearOrder K] [NeZero R] [NeZero V] (exp log : K → K)

/-- The logits of a row less the largest of all ranks. -/
def subtractMax (z : Fin R → Fin V → K) (rank : Fin R) (v : Fin V) : K :=
  z rank v - allReduceMax fun rank => amax (z rank)

/-- The logarithm of the softmax of a row, at an entry of a rank. -/
def computeDistributedLogSoftmax (z : Fin R → Fin V → K) (rank : Fin R) (v : Fin V) : K :=
  let sumExpLogits := allReduceSum fun rank => ∑ v, exp (subtractMax z rank v)
  subtractMax z rank v - log sumExpLogits

/-- The softmax of a row, at an entry of a rank. -/
def computeDistributedSoftmax (z : Fin R → Fin V → K) (rank : Fin R) (v : Fin V) : K :=
  let sumExpLogits := allReduceSum fun rank => ∑ v, exp (subtractMax z rank v)
  exp (subtractMax z rank v) / sumExpLogits

end Reductions

/-! ## The tokens of a rank -/

section Targets
variable {K : Type} {R V : ℕ}

/-- A token is not in the part of a rank. -/
def targetMask (V : ℕ) (rank : Fin R) (target : ℤ) : Bool :=
  decide (target < (rank : ℕ) * V) || decide (((rank : ℕ) + 1) * V ≤ target)

/-- The place of a token in the part of a rank, or the first place. -/
def maskedTarget [NeZero V] (rank : Fin R) (target : ℤ) : Fin V :=
  if targetMask V rank target then 0 else Fin.ofNat V (target - (rank : ℕ) * V).toNat

/-- What a rank contributes to the log probability of a token. -/
def localLogprob [Zero K] [NeZero V] (logProbs : Fin V → K) (rank : Fin R) (target : ℤ) : K :=
  if targetMask V rank target then 0 else logProbs (maskedTarget rank target)

/-- One at the token, where a rank holds it, and zero elsewhere. -/
def isChosen [Zero K] [One K] [NeZero V] (rank : Fin R) (target : ℤ) (v : Fin V) : K :=
  if targetMask V rank target then 0 else if v = maskedTarget rank target then 1 else 0

end Targets

/-! ## Flat tensors -/

/-- The entries of a table, row by row. -/
def flatten2 {α : Type} {B S : ℕ} (x : Fin B → Fin S → α) : List α :=
  (List.finRange B).flatMap fun b => (List.finRange S).map (x b)

/-- The entries of a tensor of three dimensions, the last one running fastest. -/
def flatten3 {α : Type} {B S V : ℕ} (x : Fin B → Fin S → Fin V → α) : List α :=
  (List.finRange B).flatMap fun b => (List.finRange S).flatMap fun s => (List.finRange V).map (x b s)

/-! ## Chunks -/

section Chunks
variable {B S : ℕ} {β : Type}

/-- The positions of a chunk. -/
def chunkPositions (S : ℕ) (chunk : ℕ × ℕ) : List (Fin S) :=
  slice (List.finRange S) chunk.1 chunk.2

/-- Compute the chunks of a sequence one after the other and put them together. -/
def catChunks (chunkSize : ℕ) (noChunk : PyError) (chunk : Fin B → Fin S → β) :
    Except PyError (Fin B → List β) :=
  if chunkSize = 0 then
    .error ⟨.zeroDivisionError, "integer division or modulo by zero"⟩
  else
    let chunks := (seqChunks S chunkSize).map fun p => fun b =>
      (chunkPositions S p).map (chunk b)
    if chunks = [] then .error noChunk
    else .ok fun b => chunks.flatMap fun chunk => chunk b

/-- Compute the chunks of a sequence and write each into a tensor that is there already. -/
def writeChunks (chunkSize : ℕ) (init chunk : Fin B → Fin S → β) :
    Except PyError (Fin B → Fin S → β) :=
  if chunkSize = 0 then
    .error ⟨.zeroDivisionError, "integer division or modulo by zero"⟩
  else
    .ok ((seqChunks S chunkSize).foldl (fun gradInput p => fun b s =>
      if s ∈ chunkPositions S p then chunk b s else gradInput b s) init)

/-- What is raised when no tensor is concatenated. -/
def emptyCat : PyError :=
  ⟨.runtimeError, "torch.cat(): expected a non-empty list of Tensors"⟩

/-- What is raised when the first of no tensors is asked for. -/
def noFirst : PyError := ⟨.indexError, "list index out of range"⟩

end Chunks

variable {K : Type} [Field K] [LinearOrder K] (exp log : K → K) {R B S V : ℕ} [NeZero R]
  [NeZero V]

/-! ## Log probabilities of tokens -/

namespace DistributedLogprob

/-- The log probability of a token at one position. -/
def position (z : Fin R → Fin V → K) (target : ℤ) : K :=
  let logProbs := computeDistributedLogSoftmax exp log z
  allReduceSum fun rank => localLogprob (logProbs rank) rank target

/-- The log probability of the token of each position. -/
def forward (logits : VocabLogits K R B S V) (target : Fin B → Fin S → ℤ) (b : Fin B)
    (s : Fin S) : K :=
  position exp log (fun rank => logits rank b s) (target b s)

/-- The softmax that the forward pass saves. -/
def savedSoftmax (logits : VocabLogits K R B S V) (rank : Fin R) (b : Fin B) (s : Fin S)
    (v : Fin V) : K :=
  exp (computeDistributedLogSoftmax exp log (fun rank => logits rank b s) rank v)

/-- The backward pass for tensors that have not three dimensions. -/
def backward (logits : VocabLogits K R B S V) (target : Fin B → Fin S → ℤ)
    (gradOutput : Fin B → Fin S → K) (rank : Fin R) (b : Fin B) (s : Fin S) (v : Fin V) : K :=
  (isChosen rank (target b s) v - savedSoftmax exp log logits rank b s v) * gradOutput b s

/-- The entries of a flat tensor where a mask is not set. -/
def maskedSelectNot {α : Type} (x : List α) (mask : List Bool) : List α :=
  ((x.zip mask).filter fun p => !p.2).map Prod.fst

/-- Add each of some numbers to an entry of a flat tensor. -/
def scatterAdd (flat : List K) (index : List ℕ) (src : List K) : List K :=
  scatterReduce (· + ·) flat (index.zip src)

/-- The backward pass for tensors of three dimensions, which adds the chosen entries into the flat
tensor. -/
def backward3 (logits : VocabLogits K R B S V) (target : Fin B → Fin S → ℤ)
    (gradOutput : Fin B → Fin S → K) (rank : Fin R) (b : Fin B) (s : Fin S) (v : Fin V) : K :=
  let row := flatten2 fun (b : Fin B) (_ : Fin S) => (b : ℕ)
  let col := flatten2 fun (_ : Fin B) (s : Fin S) => (s : ℕ)
  let flatIdx := List.zipWith (fun row col => (row * S + col) * V) row col
  let mask := flatten2 fun b s => targetMask V rank (target b s)
  let flatChosen := List.zipWith (· + ·) (maskedSelectNot flatIdx mask)
    (maskedSelectNot (flatten2 fun b s => (maskedTarget (V := V) rank (target b s) : ℕ)) mask)
  let gradInput := flatten3 fun b s v =>
    -savedSoftmax exp log logits rank b s v * gradOutput b s
  let gradOutputSelected := maskedSelectNot (flatten2 gradOutput) mask
  (scatterAdd gradInput flatChosen gradOutputSelected).getD ((b * S + s) * V + v) 0

end DistributedLogprob

namespace ChunkedDistributedLogprob

/-- The log probability of the token of each position. -/
def forward (logits : VocabLogits K R B S V) (target : Fin B → Fin S → ℤ) (chunkSize : ℕ) :
    Except PyError (Fin B → List K) :=
  catChunks chunkSize emptyCat fun b s =>
    DistributedLogprob.position exp log (fun rank => logits rank b s) (target b s)

/-- The backward pass, which computes the softmax again. -/
def backward (logits : VocabLogits K R B S V) (target : Fin B → Fin S → ℤ) (chunkSize : ℕ)
    (gradOutput : Fin B → Fin S → K) (rank : Fin R) :
    Except PyError (Fin B → Fin S → Fin V → K) :=
  writeChunks chunkSize (fun _ _ _ => 0) fun b s v =>
    let softmaxOutput := exp (computeDistributedLogSoftmax exp log (fun rank => logits rank b s)
      rank v)
    (isChosen rank (target b s) v - softmaxOutput) * gradOutput b s

end ChunkedDistributedLogprob

/-! ## Cross entropy against a teacher -/

namespace DistributedCrossEntropy

/-- The cross entropy of each position. -/
def forward (studentLogits targetLogits : VocabLogits K R B S V) (b : Fin B) (s : Fin S) : K :=
  let targetProbs := computeDistributedSoftmax exp fun rank => targetLogits rank b s
  let studentLogProbs := computeDistributedLogSoftmax exp log fun rank => studentLogits rank b s
  allReduceSum fun rank => -∑ v, targetProbs rank v * studentLogProbs rank v

/-- The backward pass. -/
def backward (studentLogits targetLogits : VocabLogits K R B S V)
    (gradOutput : Fin B → Fin S → K) (rank : Fin R) (b : Fin B) (s : Fin S) (v : Fin V) : K :=
  let targetProbs := computeDistributedSoftmax exp fun rank => targetLogits rank b s
  let studentProbs := fun rank v =>
    exp (computeDistributedLogSoftmax exp log (fun rank => studentLogits rank b s) rank v)
  (studentProbs rank v - targetProbs rank v) * gradOutput b s

end DistributedCrossEntropy

/-! ## Entropy -/

namespace ChunkedDistributedEntropy

/-- The sum of the probabilities times their logarithms at a position. -/
def position (z : Fin R → Fin V → K) : K :=
  let logProbs := computeDistributedLogSoftmax exp log z
  allReduceSum fun rank => ∑ v, exp (logProbs rank v) * logProbs rank v

/-- The negative entropy of each position. -/
def forward (logits : VocabLogits K R B S V) (chunkSize : ℕ) : Except PyError (Fin B → List K) :=
  catChunks chunkSize noFirst fun b s => position exp log fun rank => logits rank b s

/-- The backward pass, which computes the entropy again and writes into a tensor of whatever was
in the memory. -/
def backward (logits : VocabLogits K R B S V) (chunkSize : ℕ) (emptyLike : Fin B → Fin S → Fin V → K)
    (gradOutput : Fin B → Fin S → K) (rank : Fin R) :
    Except PyError (Fin B → Fin S → Fin V → K) :=
  writeChunks chunkSize emptyLike fun b s v =>
    let logProbs := computeDistributedLogSoftmax exp log fun rank => logits rank b s
    let hLocal := position exp log fun rank => logits rank b s
    exp (logProbs rank v) * (logProbs rank v - hLocal) * gradOutput b s

end ChunkedDistributedEntropy

/-! ## Log probabilities at several indices -/

namespace ChunkedDistributedGatherLogprob
variable {k : ℕ}

/-- An index is in the part of a rank. -/
def inRange (V : ℕ) (rank : Fin R) (globalIndex : ℤ) : Bool :=
  decide ((rank : ℕ) * (V : ℤ) ≤ globalIndex) && decide (globalIndex < ((rank : ℕ) + 1) * (V : ℤ))

/-- The place of an index in the part of a rank, moved into the part. -/
def localIndex (rank : Fin R) (globalIndex : ℤ) : Fin V :=
  Fin.ofNat V (min (max (globalIndex - (rank : ℕ) * V) 0) ((V : ℤ) - 1)).toNat

/-- The log probabilities of each position at its indices. -/
def forward (logits : VocabLogits K R B S V) (globalIndices : Fin B → Fin S → Fin k → ℤ)
    (chunkSize : ℕ) : Except PyError (Fin B → List (Fin k → K)) :=
  catChunks chunkSize noFirst fun b s i =>
    let logProbs := computeDistributedLogSoftmax exp log fun rank => logits rank b s
    allReduceSum fun rank => logProbs rank (localIndex rank (globalIndices b s i)) *
      if inRange V rank (globalIndices b s i) then 1 else 0

/-- The backward pass. What belongs to an index is added at its place. -/
def backward (logits : VocabLogits K R B S V) (globalIndices : Fin B → Fin S → Fin k → ℤ)
    (chunkSize : ℕ) (gradOutput : Fin B → Fin S → Fin k → K) (rank : Fin R) :
    Except PyError (Fin B → Fin S → Fin V → K) :=
  writeChunks chunkSize (fun _ _ _ => 0) fun b s =>
    let softmaxOutput := fun v =>
      exp (computeDistributedLogSoftmax exp log (fun rank => logits rank b s) rank v)
    let goSum := ∑ i, gradOutput b s i
    (List.finRange k).foldl (fun gradInput i => Function.update gradInput
      (localIndex rank (globalIndices b s i)) (gradInput (localIndex rank (globalIndices b s i)) +
        gradOutput b s i * if inRange V rank (globalIndices b s i) then 1 else 0))
      fun v => -softmaxOutput v * goSum

end ChunkedDistributedGatherLogprob
end NemoRL.Distributed
