import Mathlib
import NemoRL.Loss.MaskedMean

/-!
# The gold loss of cross-tokenizer distillation

The tokens of the student and of the teacher are aligned in chunks. For each chunk the log
probabilities of both sides are averaged; those of the tokens that the vocabularies have in
common are compared by their divergence, and the largest of the others by their distance. The
loss is the sum over the valid chunks by their number, which an all reduce adds up over the
ranks that make the call. The cross entropy beside it is a masked mean that is given its count.

There is one tensor and context parallel rank. The exponential and the logarithm are any
functions on an ordered field.

## Main definitions

* `chunkAverageLogProbs` — the log probabilities of a chunk.
* `GoldLossFn.computeGold` — the loss of a microbatch, given the count of all ranks.
* `GoldLossFn.goldStep` — one call on every rank.
* `computeCe` — the cross entropy of a microbatch.
-/

namespace NemoRL.Loss

variable {K : Type} [Field K]

/-! ## Chunks -/

/-- The alignment of one sample: the chunk of each position, `-1` for none, and the valid
pairs of chunks. -/
structure LocalizedAlignment (K : Type) (S Tt C : ℕ) where
  sampleMask : K
  studentChunkId : Fin S → ℤ
  teacherChunkId : Fin Tt → ℤ
  pairValid : Fin C → Bool

/-- The number of positions of a chunk. -/
def chunkSizes {n C : ℕ} (chunkId : Fin n → ℤ) (c : Fin C) : ℕ :=
  (Finset.univ.filter fun t => chunkId t = (c : ℕ)).card

/-- The sums of the log probabilities over a chunk, and its size. -/
def chunkLogProbSums {n C V : ℕ} (logProbs : Fin n → Fin V → K) (chunkId : Fin n → ℤ)
    (c : Fin C) : (Fin V → K) × ℕ :=
  (fun v => ∑ t, (if chunkId t = (c : ℕ) then 1 else 0) * logProbs t v, chunkSizes chunkId c)

/-- Divide the sums by the size, to which a small number is added. -/
def chunkAverageFinalize {V : ℕ} (chunkSums : Fin V → K) (chunkSize : ℕ) : (Fin V → K) × ℕ :=
  (fun v => chunkSums v / (chunkSize + 1 / ((10 ^ 10 : ℕ) : K)), chunkSize)

/-- The averages of the log probabilities over a chunk, and its size. -/
def chunkAverageLogProbs {n C V : ℕ} (logProbs : Fin n → Fin V → K) (chunkId : Fin n → ℤ)
    (c : Fin C) : (Fin V → K) × ℕ :=
  let (chunkSums, chunkSize) := chunkLogProbSums logProbs chunkId c
  chunkAverageFinalize chunkSums chunkSize

/-- Both sides of a chunk have positions and the pair is valid. -/
def validChunkMask (sSize tSize : ℕ) (pairValid : Bool) : Bool :=
  decide (0 < sSize) && decide (0 < tSize) && pairValid

/-- The logarithm of the softmax of a row. -/
def logSoftmax (exp log : K → K) {V : ℕ} (xs : Fin V → K) (v : Fin V) : K :=
  xs v - log (∑ w, exp (xs w))

/-- The divergence at one element, where the target is a logarithm. -/
def klDiv (exp : K → K) (input target : K) : K := exp target * (target - input)

variable [LinearOrder K]

/-- The values in descending order. -/
def sortDescending (xs : List K) : List K := xs.insertionSort (· ≥ ·)

/-- The largest values in descending order. -/
def topk (xs : List K) (k : ℕ) : List K := (sortDescending xs).take k

/-- The position of the first largest value. -/
def argmax (xs : List K) : ℕ := xs.findIdx fun x => decide (∀ y ∈ xs, y ≤ x)

/-- The distances of two rows. -/
def l1Loss (input target : List K) : List K := List.zipWith (fun x y => |x - y|) input target

/-! ## The loss -/

/-- The tokens that the vocabularies have in common, in pairs, and the others of each. -/
structure ExactTokenMap (Vs Vt : ℕ) where
  common : List (Fin Vs × Fin Vt)
  uncommonStudent : List (Fin Vs)
  uncommonTeacher : List (Fin Vt)

/-- One sample of a microbatch with its logits. The teacher's logits may be padded beyond the
vocabulary of its tokenizer. -/
structure GoldRow (K : Type) (Vs Vt pad S Tt C : ℕ) where
  studentLogits : Fin S → Fin Vs → K
  teacherFullLogits : Fin Tt → Fin (Vt + pad) → K
  align : LocalizedAlignment K S Tt C
  inputIds : Fin S → Fin Vs
  tokenMask : Fin S → K

/-- The settings of the loss. -/
structure GoldLossFn (K : Type) [Field K] where
  temperature : K
  uncommonTopk : ℤ
  reverseKl : Bool
  temperature_ne : temperature ≠ 0

/-- What the gold path returns. -/
structure GoldLoss (K : Type) where
  loss : K
  klCommon : K
  l1Uncommon : K
  numValidChunks : ℕ
  top1Acc : K
  deriving DecidableEq

/-- A chunk counts when it is valid and its sample is not masked. -/
def LocalizedAlignment.validChunk {S Tt C : ℕ} (align : LocalizedAlignment K S Tt C)
    (c : Fin C) : Bool :=
  validChunkMask (chunkSizes align.studentChunkId c) (chunkSizes align.teacherChunkId c)
    (align.pairValid c) && decide (align.sampleMask ≠ 0)

variable {Vs Vt pad S Tt C : ℕ}

/-- The chunks of a microbatch that count. -/
def validChunks (rows : List (GoldRow K Vs Vt pad S Tt C)) :
    List (GoldRow K Vs Vt pad S Tt C × Fin C) :=
  rows.flatMap fun row =>
    ((List.finRange C).filter fun c => row.align.validChunk c).map fun c => (row, c)

namespace GoldLossFn
variable (fn : GoldLossFn K) (exp log : K → K)

/-- The log probabilities of a chunk of the student. -/
def studentChunks (row : GoldRow K Vs Vt pad S Tt C) (c : Fin C) : Fin Vs → K :=
  (chunkAverageLogProbs
    (fun t => logSoftmax exp log fun v => row.studentLogits t v / fn.temperature)
    row.align.studentChunkId c).1

/-- The log probabilities of a chunk of the teacher, without the padding of its vocabulary. -/
def teacherChunks (row : GoldRow K Vs Vt pad S Tt C) (c : Fin C) : Fin Vt → K :=
  (chunkAverageLogProbs
    (fun t => logSoftmax exp log fun v =>
      row.teacherFullLogits t (Fin.castAdd pad v) / fn.temperature)
    row.align.teacherChunkId c).1

variable (map : ExactTokenMap Vs Vt)

/-- The divergence of the common tokens of a chunk. -/
def klPerChunk (row : GoldRow K Vs Vt pad S Tt C) (c : Fin C) : K :=
  (map.common.map fun pair =>
    let studentCommon := fn.studentChunks exp log row c pair.1
    let teacherCommon := fn.teacherChunks exp log row c pair.2
    if fn.reverseKl then klDiv exp teacherCommon studentCommon
    else klDiv exp studentCommon teacherCommon).sum

/-- The number of tokens that are not common to be compared. -/
def maxUncommon : ℤ :=
  min (min (map.uncommonStudent.length : ℤ) map.uncommonTeacher.length) fn.uncommonTopk

/-- The distance of the largest probabilities of the other tokens of a chunk. -/
def l1PerChunk (row : GoldRow K Vs Vt pad S Tt C) (c : Fin C) : K :=
  let k := (fn.maxUncommon map).toNat
  let studentUncProbs := map.uncommonStudent.map fun v => exp (fn.studentChunks exp log row c v)
  let teacherUncProbs := map.uncommonTeacher.map fun v => exp (fn.teacherChunks exp log row c v)
  let studentSorted :=
    if k < studentUncProbs.length then topk studentUncProbs k else sortDescending studentUncProbs
  let teacherSorted :=
    if k < teacherUncProbs.length then topk teacherUncProbs k else sortDescending teacherUncProbs
  let minLen := min studentSorted.length teacherSorted.length
  (l1Loss (studentSorted.take minLen) (teacherSorted.take minLen)).sum

/-- Both sides of a chunk have the same most probable common token. -/
def commonMatch (row : GoldRow K Vs Vt pad S Tt C) (c : Fin C) : Bool :=
  argmax (map.common.map fun pair => fn.studentChunks exp log row c pair.1) =
    argmax (map.common.map fun pair => fn.teacherChunks exp log row c pair.2)

/-- The loss of a microbatch, given the number of valid chunks on all ranks. -/
def computeGold (globalValidChunks : ℕ) (rows : List (GoldRow K Vs Vt pad S Tt C)) :
    GoldLoss K :=
  if globalValidChunks = 0 then
    { loss := 0, klCommon := 0, l1Uncommon := 0, numValidChunks := 0, top1Acc := 0 }
  else
    let valid := validChunks rows
    let denom := max (globalValidChunks : K) 1
    let klCommon :=
      if 0 < map.common.length then
        (rows.map fun row => ((List.finRange C).map fun c =>
          fn.klPerChunk exp log map row c * if row.align.validChunk c then 1 else 0).sum).sum /
          denom
      else 0
    let l1Uncommon :=
      if 0 < map.uncommonStudent.length ∨ 0 < map.uncommonTeacher.length then
        if 0 < valid.length ∧ 0 < fn.maxUncommon map then
          (valid.map fun chunk => fn.l1PerChunk exp log map chunk.1 chunk.2).sum / denom
        else 0
      else 0
    let top1Acc :=
      if 0 < map.common.length then
        (valid.countP fun chunk => fn.commonMatch exp log map chunk.1 chunk.2 : K) /
          max (valid.length : K) 1
      else 0
    { loss := (klCommon + l1Uncommon) * (fn.temperature * fn.temperature)
      klCommon := klCommon
      l1Uncommon := l1Uncommon
      numValidChunks := valid.length
      top1Acc := top1Acc }

/-- One call on each rank. The number of valid chunks of the microbatches is reduced over the
ranks within the call. -/
def goldStep (ranks : List (List (GoldRow K Vs Vt pad S Tt C))) : List (GoldLoss K) :=
  let globalValidChunks := (ranks.map fun rows => (validChunks rows).length).sum
  ranks.map (fn.computeGold exp log map globalValidChunks)

/-- The microbatches of a step, one call on all ranks after the other. -/
def goldRun {R M : ℕ} (microbatch : Fin R → Fin M → List (GoldRow K Vs Vt pad S Tt C)) :
    List (GoldLoss K) :=
  (List.finRange M).flatMap fun k =>
    fn.goldStep exp log map ((List.finRange R).map fun r => microbatch r k)

end GoldLossFn

/-! ## Cross entropy -/

section CrossEntropy
variable (exp log : K → K)

/-- The cross entropy of each next token of a sample. -/
def studentNextTokenCe (row : GoldRow K Vs Vt pad S Tt C) : List K :=
  List.zipWith (fun logits label => -logSoftmax exp log logits label)
    (List.ofFn row.studentLogits).dropLast (List.ofFn row.inputIds).tail

/-- The mask of the next tokens of a sample. -/
def ceLabelMask (row : GoldRow K Vs Vt pad S Tt C) (ceSeqLen : ℕ) : List K :=
  ((List.ofFn row.tokenMask).tail.take ceSeqLen).map (· * row.align.sampleMask)

/-- The cross entropy of a microbatch, by a global count. -/
def computeCe (globalValidToks : K) (rows : List (GoldRow K Vs Vt pad S Tt C)) : K :=
  maskedMean (rows.flatMap (studentNextTokenCe exp log))
    (rows.flatMap fun row => ceLabelMask row (studentNextTokenCe exp log row).length)
    (some globalValidToks)

end CrossEntropy
end NemoRL.Loss
