import NemoRL.Lib.Except
import NemoRL.Lib.Layout
import NemoRL.Loss.ClippedPG

/-!
# Losses of packed sequences

The logits of a packed microbatch are those of its sequences one after another, each padded,
while the data have one row per sequence. One wrapper cuts the logits into sequences and adds
up the losses of the sequences, the other prepares and calls the loss function once. How
logits become log probabilities is the prepare function of a wrapper.

All ranks of a context-parallel group run the same code, and a prepare function may gather
from them, so that it is given the logits of each rank.

## Main definitions

* `sequencePackingLossWrapper` — one sequence at a time.
* `sequencePackingFusionLossWrapper` — all sequences at once.
-/

namespace NemoRL.Loss

open Lib

variable {L T K : Type}

/-- A loss function on log probabilities and data, with the counts of the global batch. -/
abbrev LossFn (T K : Type) := List (List K) → List (Sample T K) → Except PyError K

/-- Cut off a tensor at the length of the sequence. A tensor with one column is left as it
is. -/
def cutTensor {α : Type} (unpaddedSeqLength : ℕ) (v : List α) : List α :=
  if 1 < v.length then v.take unpaddedSeqLength else v

/-- Cut off the tensors of a sample at the length of the sequence. -/
def Sample.cut (unpaddedSeqLength : ℕ) (sample : Sample T K) : Sample T K where
  inputIds := cutTensor unpaddedSeqLength sample.inputIds
  tokenMask := cutTensor unpaddedSeqLength sample.tokenMask
  sampleMask := sample.sampleMask
  advantages := cutTensor unpaddedSeqLength sample.advantages
  prevLogprobs := cutTensor unpaddedSeqLength sample.prevLogprobs
  generationLogprobs := cutTensor unpaddedSeqLength sample.generationLogprobs
  referencePolicyLogprobs := cutTensor unpaddedSeqLength sample.referencePolicyLogprobs
  currLogprobsUnfiltered := sample.currLogprobsUnfiltered.map (cutTensor unpaddedSeqLength)
  reward := sample.reward

/-- The part of a tensor from a start on. -/
def narrow {α : Type} (xs : List α) (start length : ℕ) : Except PyError (List α) :=
  if start + length ≤ xs.length then .ok (slice xs start (start + length))
  else .error ⟨.runtimeError, "start + length exceeds dimension size"⟩

/-- An element of a tensor. -/
def item {α : Type} (xs : List α) (i : ℕ) : Except PyError α :=
  match xs[i]? with
  | some x => .ok x
  | none => .error ⟨.indexError, "index is out of bounds for dimension 0"⟩

/-- The data of one sequence. -/
def sliceData (data : List (Sample T K)) (seqIdx : ℕ) : Except PyError (Sample T K) :=
  match data[seqIdx]? with
  | some sample => .ok sample
  | none => .error ⟨.assertionError, "end: " ++ toString (seqIdx + 1) ++
      " is greater than the shape of the tensor: " ++ toString data.length ++
      " for key: input_ids"⟩

section Wrappers
variable (lossFn : LossFn T K) (cuSeqlensQ : List ℕ) (cuSeqlensQPadded : Option (List ℕ))
  (cpSize : ℕ)

/-- The log probabilities and the data of one sequence. -/
def prepareSequence
    (prepareFn : (ℕ → List L) → Sample T K → Except PyError (List K × Sample T K))
    (nextTokenLogits : ℕ → List L) (data : List (Sample T K)) (seqIdx : ℕ) :
    Except PyError (List K × Sample T K) := do
  let paddedCuSeqlens := cuSeqlensQPadded.getD cuSeqlensQ
  let (seqStart, seqEnd) ← item (bounds paddedCuSeqlens) seqIdx
  let seqData ← sliceData data seqIdx
  let (start, stop) ← item (bounds cuSeqlensQ) seqIdx
  let unpaddedSeqData := seqData.cut (stop - start)
  let logitStart := seqStart / cpSize
  let logitEnd := (seqStart + (seqEnd - seqStart)) / cpSize
  let logitLength := logitEnd - logitStart
  let nextTokenLogitsSlice ← (List.range cpSize).mapM fun rank =>
    narrow (nextTokenLogits rank) logitStart logitLength
  prepareFn (fun rank => nextTokenLogitsSlice.getD rank []) unpaddedSeqData

/-- The sum of the losses of the sequences. -/
def sequencePackingLossWrapper [Add K] [Zero K]
    (prepareFn : (ℕ → List L) → Sample T K → Except PyError (List K × Sample T K))
    (nextTokenLogits : ℕ → List L) (data : List (Sample T K)) : Except PyError K :=
  (List.range (bounds (cuSeqlensQPadded.getD cuSeqlensQ)).length).foldlM (fun lossAccum seqIdx => do
    let (lossInput, unpaddedSeqData) ← prepareSequence cuSeqlensQ cuSeqlensQPadded cpSize prepareFn
      nextTokenLogits data seqIdx
    let loss ← lossFn [lossInput] [unpaddedSeqData]
    return lossAccum + loss) 0

/-- The loss of all sequences at once. -/
def sequencePackingFusionLossWrapper
    (prepareFn : List ℕ → List ℕ → (ℕ → List L) → List (Sample T K) →
      Except PyError (List (List K) × List (Sample T K)))
    (nextTokenLogits : ℕ → List L) (data : List (Sample T K)) : Except PyError K := do
  let (lossInput, preparedData) ←
    prepareFn cuSeqlensQ (cuSeqlensQPadded.getD cuSeqlensQ) nextTokenLogits data
  lossFn lossInput preparedData

end Wrappers

/-! ## Sequences -/

/-- The input of one sequence, which is cut out of the logits of each rank. -/
theorem prepareSequence_eq {lens padded : List ℕ} {cuSeqlensQPadded : Option (List ℕ)}
    {cpSize : ℕ}
    {prepareFn : (ℕ → List L) → Sample T K → Except PyError (List K × Sample T K)}
    {nextTokenLogits : ℕ → List L} {data : List (Sample T K)} {i n p : ℕ} {sample : Sample T K}
    (hcu : cuSeqlensQPadded.getD (cumulative 0 lens) = cumulative 0 padded)
    (hn : lens[i]? = some n) (hp : padded[i]? = some p) (hsample : data[i]? = some sample)
    (hlogits : ∀ rank < cpSize,
      ((padded.take i).sum + p) / cpSize ≤ (nextTokenLogits rank).length) :
    prepareSequence (cumulative 0 lens) cuSeqlensQPadded cpSize prepareFn nextTokenLogits data i =
      prepareFn (fun rank => ((List.range cpSize).map fun rank =>
        slice (nextTokenLogits rank) ((padded.take i).sum / cpSize)
          (((padded.take i).sum + p) / cpSize)).getD rank []) (sample.cut n) := by
  have hle : (padded.take i).sum / cpSize ≤ ((padded.take i).sum + p) / cpSize :=
    Nat.div_le_div_right (Nat.le_add_right _ p)
  have hnarrow : ∀ rank ∈ List.range cpSize,
      narrow (nextTokenLogits rank) ((padded.take i).sum / cpSize)
        (((padded.take i).sum + p) / cpSize - (padded.take i).sum / cpSize) =
      .ok (slice (nextTokenLogits rank) ((padded.take i).sum / cpSize)
        (((padded.take i).sum + p) / cpSize)) := by
    intro rank hrank
    have hlength := hlogits rank (List.mem_range.mp hrank)
    rw [narrow, Nat.add_sub_of_le hle, if_pos hlength]
  simp only [prepareSequence, hcu, item, sliceData, getElem?_bounds_cumulative, hn, hp,
    hsample, Option.map_some, Nat.zero_add, Nat.add_sub_cancel_left, bind, Except.bind,
    mapM_of_forall hnarrow]

/-! ## Sums of losses -/

/-- The sum is that of the losses of the sequences, when each of them is prepared and has
one. -/
theorem sequencePackingLossWrapper_eq [AddCommMonoid K] {lossFn : LossFn T K}
    {cuSeqlensQ : List ℕ} {cuSeqlensQPadded : Option (List ℕ)} {cpSize : ℕ}
    {prepareFn : (ℕ → List L) → Sample T K → Except PyError (List K × Sample T K)}
    {nextTokenLogits : ℕ → List L} {data : List (Sample T K)} {loss : ℕ → K}
    (h : ∀ i < (bounds (cuSeqlensQPadded.getD cuSeqlensQ)).length, ∃ lossInput seqData,
      prepareSequence cuSeqlensQ cuSeqlensQPadded cpSize prepareFn nextTokenLogits data i =
        .ok (lossInput, seqData) ∧ lossFn [lossInput] [seqData] = .ok (loss i)) :
    sequencePackingLossWrapper lossFn cuSeqlensQ cuSeqlensQPadded cpSize prepareFn
        nextTokenLogits data =
      .ok ((List.range (bounds (cuSeqlensQPadded.getD cuSeqlensQ)).length).map loss).sum := by
  have hfold : ∀ (l : List ℕ) (acc : K),
      (∀ i ∈ l, i < (bounds (cuSeqlensQPadded.getD cuSeqlensQ)).length) →
      l.foldlM (fun lossAccum seqIdx => do
        let (lossInput, unpaddedSeqData) ← prepareSequence cuSeqlensQ cuSeqlensQPadded cpSize
          prepareFn nextTokenLogits data seqIdx
        let loss ← lossFn [lossInput] [unpaddedSeqData]
        return lossAccum + loss) acc = .ok (acc + (l.map loss).sum) := by
    intro l
    induction l with
    | nil => simp [pure, Except.pure]
    | cons i l ih =>
      intro acc hl
      obtain ⟨lossInput, seqData, hinput, hloss⟩ := h i (hl i List.mem_cons_self)
      have htail := ih (acc + loss i) fun j hj => hl j (List.mem_cons_of_mem i hj)
      simp only [bind, Except.bind, pure, Except.pure] at htail ⊢
      simp only [List.foldlM_cons, hinput, hloss, bind, Except.bind]
      rw [htail, List.map_cons, List.sum_cons, add_assoc]
  have hrange := hfold (List.range (bounds (cuSeqlensQPadded.getD cuSeqlensQ)).length) 0
    fun i hi => List.mem_range.mp hi
  rwa [zero_add] at hrange

end NemoRL.Loss
