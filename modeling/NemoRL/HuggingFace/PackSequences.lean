import NemoRL.Error
import NemoRL.Lib.Except
import NemoRL.Lib.Layout

/-!
# Rows of packed sequences

The true tokens of several sequences are concatenated to a row, with positions that start anew
for each sequence and with a mask for each row. A packed tensor is split again by the lengths of
its sequences, which are padded to one length.

A tensor of two dimensions is a list of rows, and one of three dimensions has vectors in its rows.

## Main definitions

* `groupAndCatTensors`, `packSequences` — packing.
* `unpackTensor` — splitting a packed tensor.
-/

namespace NemoRL.HuggingFace

open Lib

variable {K : Type}

/-! ## Packing -/

/-- The groups of a list, from an index on. -/
def groupsFrom {β : Type} (tensors : List β) : ℕ → List ℕ → List (List β)
  | _, [] => []
  | index, size :: groupSizes =>
    slice tensors index (index + size) :: groupsFrom tensors (index + size) groupSizes

/-- Concatenate tensors. -/
def catTensors (group : List (List K)) : Except PyError (List K) :=
  if group.isEmpty then .error ⟨.runtimeError, "torch.cat(): expected a non-empty list of Tensors"⟩
  else .ok group.flatten

/-- Pad a tensor on the right. -/
def padRight (maxLen : ℕ) (paddingValue : K) (t : List K) : List K :=
  t ++ List.replicate (maxLen - t.length) paddingValue

/-- Concatenate the tensors of each group, and pad and stack the groups. -/
def groupAndCatTensors (tensors : List (List K)) (groupSizes : List ℕ) (paddingValue : K)
    (minSeqLen : ℕ) : Except PyError (List (List K)) := do
  let grouped ← (groupsFrom tensors 0 groupSizes).mapM catTensors
  if grouped.isEmpty then throw ⟨.valueError, "max() iterable argument is empty"⟩
  let maxLen := max ((grouped.map List.length).foldr max 0) minSeqLen
  return grouped.map (padRight maxLen paddingValue)

/-- A lower triangle. -/
def tril (n : ℕ) : List (List Bool) :=
  (List.range n).map fun p => (List.range n).map fun q => decide (q ≤ p)

/-- Overwrite the first rows and columns of a square. -/
def assignBlock (square block : List (List Bool)) : Except PyError (List (List Bool)) :=
  if square.length < block.length then
    .error ⟨.runtimeError, s!"The expanded size of the tensor ({square.length}) must match the " ++
      s!"existing size ({block.length}) at non-singleton dimension 1"⟩
  else
    .ok (List.zipWith (fun row new => new ++ row.drop new.length) square block ++
      square.drop block.length)

/-- Packed sequences. -/
structure PackedSequences (K : Type) where
  inputIdsPacked : List (List K)
  positionIdsPacked : List (List ℕ)
  attentionMask : Option (List (List (List Bool)))
  deriving DecidableEq, Repr

/-- The mask of each row, of some length. -/
def attentionMasks (flatLengths packedSequenceSize : List ℕ) (maxSeqLen : ℕ) :
    Except PyError (List (List (List Bool))) :=
  (groupsFrom flatLengths 0 packedSequenceSize).mapM fun groupLengths =>
    assignBlock (List.replicate maxSeqLen (List.replicate maxSeqLen false))
      (tril groupLengths.sum)

/-- The true tokens of a sequence. -/
def trueTokens (inputIds : List (List K)) (p : ℕ × ℕ) : Except PyError (List K) :=
  match inputIds[p.2]? with
  | none => .error ⟨.indexError, s!"index {p.2} is out of bounds for dimension 0 with size " ++
      s!"{inputIds.length}"⟩
  | some row => .ok (row.take p.1)

/-- Pack sequences into rows. -/
def packSequences (inputIds : List (List K)) (inputLengths packedSequenceSize : List ℕ)
    (paddingValue : K) (returnAttentionMask : Bool) (minSeqLen : ℕ) :
    Except PyError (PackedSequences K) := do
  let flatInputIds ← inputLengths.zipIdx.mapM (trueTokens inputIds)
  let positionIds := inputLengths.map List.range
  let inputIdsPacked ← groupAndCatTensors flatInputIds packedSequenceSize paddingValue minSeqLen
  let positionIdsPacked ← groupAndCatTensors positionIds packedSequenceSize 0 minSeqLen
  let maxSeqLen := (inputIdsPacked.head?.map List.length).getD 0
  if returnAttentionMask then
    let attentionMask ← attentionMasks inputLengths packedSequenceSize maxSeqLen
    return ⟨inputIdsPacked, positionIdsPacked, some attentionMask⟩
  else return ⟨inputIdsPacked, positionIdsPacked, none⟩

/-! ## Unpacking -/

/-- A tensor of two dimensions, or one of three dimensions with the width of its vectors. -/
inductive Packed (K : Type)
  | tokens (rows : List (List K))
  | features (width : ℕ) (rows : List (List (List K)))
  deriving DecidableEq, Repr

/-- The length of the rows. -/
def Packed.seqLen : Packed K → ℕ
  | tokens rows => (rows.head?.map List.length).getD 0
  | features _ rows => (rows.head?.map List.length).getD 0

/-- The parts of the rows between two positions. -/
def splitRows {β : Type} (rows : List (List β)) (b : ℕ × ℕ) : List (List β) :=
  rows.map fun row => slice row b.1 b.2

/-- Split a packed tensor by the lengths of its sequences. The parts are padded in their last
dimension but one, and concatenated in the first one. -/
def unpackTensor [Zero K] (tensor : Packed K) (inputLengths : List ℕ) :
    Except PyError (Packed K) :=
  let splits := bounds (cumulative 0 inputLengths)
  let maxLen := inputLengths.foldr max 0
  if tensor.seqLen < inputLengths.sum then
    .error ⟨.runtimeError, "split_with_sizes expects split_sizes have only non-negative entries"⟩
  else if inputLengths.isEmpty then .error ⟨.valueError, "max() iterable argument is empty"⟩
  else
    match tensor with
    | .tokens rows =>
      -- the padding of a part without a third dimension is more rows
      let parts := splits.map fun b =>
        splitRows rows b ++ List.replicate (maxLen - (b.2 - b.1)) (List.replicate (b.2 - b.1) 0)
      if ∀ n ∈ inputLengths, n = maxLen then .ok (.tokens parts.flatten)
      else .error ⟨.runtimeError, "Sizes of tensors must match except in dimension 0."⟩
    | .features width rows =>
      let parts := splits.map fun b => (splitRows rows b).map fun part =>
        part ++ List.replicate (maxLen - (b.2 - b.1)) (List.replicate width 0)
      .ok (.features width parts.flatten)

end NemoRL.HuggingFace
