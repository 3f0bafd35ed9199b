import NemoRL.Error
import NemoRL.Lib.BinPacking
import NemoRL.Lib.Select
import Mathlib.Data.List.InsertIdx

/-!
# Sequence packing algorithms

A packer distributes sequences over bins of one capacity. A bin is the list of the
positions of its sequences, and the number of bins is raised to a minimum and to a
multiple by moving single sequences to new bins.

## Main definitions

* `PackingAlgorithm`, `SequencePacker` — the four algorithms and their settings.
* `packImplementation` — the bins an algorithm builds.
* `adjustBinCount` — the adjustment of the number of bins.
* `SequencePacker.pack` — the two in sequence.
-/

namespace NemoRL.Data.Packing

open Lib

/-- The supported sequence packing algorithms. -/
inductive PackingAlgorithm
  | concatenative
  | firstFitDecreasing
  | firstFitShuffle
  | modifiedFirstFitDecreasing
  deriving DecidableEq, Repr

/-- The outcomes of `random.shuffle`: which order call number `k` puts a list in. -/
structure Shuffle where
  shuffle : ℕ → List (ℕ × ℕ) → List (ℕ × ℕ)
  perm : ∀ k l, (shuffle k l).Perm l

/-- Refuse a sequence that no bin can hold. -/
def validateSequenceLengths (binCapacity : ℕ) (sequenceLengths : List ℕ) :
    Except PyError Unit :=
  match sequenceLengths.find? (binCapacity < ·) with
  | some length =>
    .error ⟨.valueError, s!"Sequence length {length} exceeds bin capacity {binCapacity}"⟩
  | none => .ok ()

/-! ## Concatenative packing -/

/-- The limit on the sequences of one bin; `-1` disables it. -/
def maxSequencesPerBin : ℤ := -1

/-- The loop state of the concatenative packer. -/
structure ConcatState where
  bins : List (List ℕ)
  currentBin : List ℕ
  currentLength : ℕ

/-- Take one sequence into the current bin, or close that bin and open a new one. -/
def concatStep (binCapacity : ℕ) (st : ConcatState) (item : ℕ × ℕ) : ConcatState :=
  let (length, i) := item
  let exceedsCapacity := binCapacity < st.currentLength + length
  let exceedsSequenceLimit :=
    maxSequencesPerBin ≠ -1 ∧ maxSequencesPerBin ≤ st.currentBin.length
  if exceedsCapacity ∨ exceedsSequenceLimit then
    ⟨if st.currentBin = [] then st.bins else st.bins ++ [st.currentBin], [i], length⟩
  else ⟨st.bins, st.currentBin ++ [i], st.currentLength + length⟩

/-- Concatenate sequences in order until the capacity is reached. -/
def concatenativePack (binCapacity : ℕ) (sequenceLengths : List ℕ) :
    Except PyError (List (List ℕ)) := do
  validateSequenceLengths binCapacity sequenceLengths
  let st := sequenceLengths.zipIdx.foldl (concatStep binCapacity) ⟨[], [], 0⟩
  return if st.currentBin = [] then st.bins else st.bins ++ [st.currentBin]

/-! ## First fit -/

/-- Put a sequence into the first bin with room for it, or open a new bin. Every
bin is kept with its remaining capacity. -/
def placeFirstFit (binCapacity length idx : ℕ) : List (List ℕ × ℕ) → List (List ℕ × ℕ)
  | [] => [([idx], binCapacity - length)]
  | (bin, remaining) :: bins =>
    if length ≤ remaining then (bin ++ [idx], remaining - length) :: bins
    else (bin, remaining) :: placeFirstFit binCapacity length idx bins

/-- One round of the first-fit loop. -/
def firstFitStep (binCapacity : ℕ) (bins : List (List ℕ × ℕ)) (item : ℕ × ℕ) :
    Except PyError (List (List ℕ × ℕ)) :=
  let (length, idx) := item
  if binCapacity < length then
    .error ⟨.valueError, s!"Sequence length {length} exceeds bin capacity {binCapacity}"⟩
  else .ok (placeFirstFit binCapacity length idx bins)

/-- First fit over sequences in a prepared order. -/
def firstFitPack (binCapacity : ℕ) (indexedLengths : List (ℕ × ℕ)) :
    Except PyError (List (List ℕ)) := do
  let bins ← indexedLengths.foldlM (firstFitStep binCapacity) []
  return bins.map Prod.fst

/-- Pairs in descending order. -/
def pairGe (p q : ℕ × ℕ) : Prop := q.1 < p.1 ∨ p.1 = q.1 ∧ q.2 ≤ p.2

instance : DecidableRel pairGe := fun p q =>
  inferInstanceAs (Decidable (q.1 < p.1 ∨ p.1 = q.1 ∧ q.2 ≤ p.2))

/-- The order of the first-fit decreasing packer. -/
def prepareDecreasing (sequenceLengths : List ℕ) : List (ℕ × ℕ) :=
  sequenceLengths.zipIdx.insertionSort pairGe

/-- The order of the first-fit shuffle packer in its `k`-th call. -/
def prepareShuffle (rand : Shuffle) (k : ℕ) (sequenceLengths : List ℕ) : List (ℕ × ℕ) :=
  rand.shuffle k sequenceLengths.zipIdx

/-! ## Modified first-fit decreasing -/

/-- A sequence with its position and its size. -/
abbrev Item := ℕ × ℕ

/-- Large: above half of the capacity. -/
def isLarge (cap : ℕ) (it : Item) : Bool := decide (cap < 2 * it.2)

/-- Medium: above a third of the capacity and at most half of it. -/
def isMedium (cap : ℕ) (it : Item) : Bool := decide (cap < 3 * it.2 ∧ 2 * it.2 ≤ cap)

/-- Small: above a sixth of the capacity and at most a third of it. -/
def isSmall (cap : ℕ) (it : Item) : Bool := decide (cap < 6 * it.2 ∧ 3 * it.2 ≤ cap)

/-- Tiny: at most a sixth of the capacity. -/
def isTiny (cap : ℕ) (it : Item) : Bool := decide (6 * it.2 ≤ cap)

/-- Stable sort by ascending size. -/
def sortAscending (items : List Item) : List Item :=
  items.insertionSort fun a b => a.2 ≤ b.2

/-- Stable sort by descending size. -/
def sortDescending (items : List Item) : List Item :=
  items.insertionSort fun a b => b.2 ≤ a.2

/-- Run a loop body over the bins, threading the items not yet packed. -/
def threadBins (f : List Item → List Item → List Item × List Item) :
    List (List Item) → List Item → List (List Item) × List Item
  | [], rest => ([], rest)
  | b :: bins, rest =>
    let (b', rest') := f b rest
    let (bins', rest'') := threadBins f bins rest'
    (b' :: bins', rest'')

/-- Phase 2: add the first medium item that fits to a large bin. -/
def addMedium (cap : ℕ) (b medium : List Item) : List Item × List Item :=
  match popFirst (fun it => decide (it.2 + load Prod.snd b ≤ cap)) medium with
  | some (it, medium') => (b ++ [it], medium')
  | none => (b, medium)

/-- Phase 3: add two small items to a bin without a medium item, the smallest one and
the largest one that fits next to it. -/
def addSmallPair (cap : ℕ) (b : List Item) : List Item → List Item × List Item
  | first :: second :: small =>
    if b.any (isMedium cap) ∨ cap < first.2 + second.2 + load Prod.snd b then
      (b, first :: second :: small)
    else
      match popLast (fun it => decide (it.2 + first.2 + load Prod.snd b ≤ cap))
          (second :: small) with
      | some (it, small') => (b ++ [first, it], small')
      | none => (b, second :: small)
  | small => (b, small)

/-- Phase 4: fill a bin greedily with the largest remaining item that fits. -/
def fillBin (cap : ℕ) (b remaining : List Item) : List Item × List Item :=
  match remaining.getLast? with
  | none => (b, remaining)
  | some smallest =>
    if cap < smallest.2 + load Prod.snd b then (b, remaining)
    else
      match h : popFirst (fun it => decide (it.2 + load Prod.snd b ≤ cap)) remaining with
      | none => (b, remaining)
      | some (it, remaining') =>
        have := length_of_popFirst h
        fillBin cap (b ++ [it]) remaining'
  termination_by remaining.length

/-- Phase 5: the bins are kept in ascending order of their sizes, so that only the
first one needs a test. -/
def ffdStep (cap : ℕ) (bins : List (List Item × ℕ)) (it : Item) :
    Except PyError (List (List Item × ℕ)) :=
  match bins with
  | [] => .error ⟨.indexError, "list index out of range"⟩
  | (b, size) :: rest =>
    let (newBin, newBinSize, others) :=
      if it.2 + size ≤ cap then (b, size, rest) else ([], 0, (b, size) :: rest)
    let newBinSize := newBinSize + it.2
    let newIdx := (others.takeWhile fun p => decide (p.2 ≤ newBinSize)).length
    .ok (others.insertIdx newIdx (newBin ++ [it], newBinSize))

/-- Phases 0 to 4: classify the items, open a bin for each large one, and refill the
bins from the other classes. Returns the bins and the leftovers. -/
def refillLargeBins (cap : ℕ) (items : List Item) : List (List Item) × List Item :=
  let large := sortDescending (items.filter (isLarge cap))
  let medium := sortDescending (items.filter (isMedium cap))
  let small := sortAscending (items.filter (isSmall cap))
  let tiny := sortAscending (items.filter (isTiny cap))
  let bins := large.map fun it => [it]
  let (bins, medium) := threadBins (addMedium cap) bins medium
  -- phase 3 runs backward over the bins
  let (reversed, small) := threadBins (addSmallPair cap) bins.reverse small
  let remainingItems := sortDescending (medium ++ small ++ tiny)
  threadBins (fillBin cap) reversed.reverse remainingItems

/-- The modified first-fit decreasing algorithm. -/
def modifiedFirstFitDecreasingPack (cap : ℕ) (sequenceLengths : List ℕ) :
    Except PyError (List (List ℕ)) :=
  if cap = 0 then .error ⟨.valueError, "bin_capacity must be positive"⟩
  else if sequenceLengths.any (· = 0) then
    .error ⟨.valueError, "sequence lengths must be positive"⟩
  else do
    validateSequenceLengths cap sequenceLengths
    let (bins, leftovers) := refillLargeBins cap (sequenceLengths.zipIdx.map Prod.swap)
    let ffdBins ← (sortDescending leftovers).foldlM (ffdStep cap) [([], 0)]
    let bins := bins ++ ffdBins.map Prod.fst
    return (bins.filter fun b => !b.isEmpty).map (List.map Prod.fst)

/-! ## The number of bins -/

/-- The number of bins that a minimum and a multiple ask for. -/
def targetBinCount (minBinCount binCountMultiple : Option ℕ) (currentBinCount : ℕ) : ℕ :=
  let target := match minBinCount with
    | some m => max currentBinCount m
    | none => currentBinCount
  match binCountMultiple with
  | some k => if target % k ≠ 0 then target + (k - target % k) else target
  | none => target

theorem getD_ne_nil (bins : List (List ℕ)) (source : ℕ)
    (h : 1 < (bins.getD source []).length) : bins.getD source [] ≠ [] :=
  List.ne_nil_of_length_pos (by omega)

/-- Take the last sequence of the first listed bin that has at least two. The bins
before it in the list are not looked at again. -/
def takeSequence (bins : List (List ℕ)) :
    List ℕ → Option (ℕ × List (List ℕ) × List ℕ)
  | [] => none
  | source :: sources =>
    let bin := bins.getD source []
    if h : 1 < bin.length then
      some (bin.getLast (getD_ne_nil bins source h), bins.set source bin.dropLast,
        source :: sources)
    else takeSequence bins sources

/-- Fill `k` new bins with one sequence each, and return them after the old bins. -/
def fillNewBins (additionalBinsNeeded : ℕ) : ℕ → List (List ℕ) → List ℕ → List (List ℕ) →
    Except PyError (List (List ℕ))
  | 0, bins, _, newBins => .ok (bins ++ newBins)
  | k + 1, bins, sources, newBins =>
    match takeSequence bins sources with
    | some (sequenceToMove, bins, sources) =>
      fillNewBins additionalBinsNeeded k bins sources (newBins ++ [[sequenceToMove]])
    | none => .error ⟨.valueError,
        "Cannot create additional bins: insufficient sequences to redistribute. " ++
        s!"Need {additionalBinsNeeded} additional bins but cannot find enough " ++
        "bins with multiple sequences to redistribute from." ++
        "WARNING: Triggering this section of code is a bug. Please report it."⟩

/-- Adjust the number of bins to the minimum and the multiple, moving sequences one at
a time from the bins with the most sequences. -/
def adjustBinCount (minBinCount binCountMultiple : Option ℕ) (bins : List (List ℕ)) :
    Except PyError (List (List ℕ)) :=
  let target := targetBinCount minBinCount binCountMultiple bins.length
  if target = bins.length then .ok bins
  else
    let totalSequences := (bins.map List.length).sum
    if totalSequences < target then
      .error ⟨.valueError,
        s!"Cannot create {target} bins with only {totalSequences} sequences. " ++
        "Each bin must contain at least one sequence. " ++
        "Either reduce min_bin_count/bin_count_multiple or provide more sequences."⟩
    else
      let binSizes := ((bins.map List.length).zipIdx).insertionSort pairGe
      let additionalBinsNeeded := target - bins.length
      fillNewBins additionalBinsNeeded additionalBinsNeeded bins (binSizes.map Prod.snd) []

/-! ## The packers -/

/-- A packer: its algorithm and its settings. -/
structure SequencePacker where
  algorithm : PackingAlgorithm
  binCapacity : ℕ
  minBinCount : Option ℕ
  binCountMultiple : Option ℕ
  deriving DecidableEq, Repr

/-- The packer of an algorithm; a multiple of zero is refused. -/
def getPacker (algorithm : PackingAlgorithm) (binCapacity : ℕ)
    (minBinCount binCountMultiple : Option ℕ) : Except PyError SequencePacker :=
  if binCountMultiple = some 0 then
    .error ⟨.valueError, "bin_count_multiple must be positive"⟩
  else .ok ⟨algorithm, binCapacity, minBinCount, binCountMultiple⟩

namespace SequencePacker

/-- The bins that the algorithm of a packer builds in its `k`-th call. -/
def packImplementation (p : SequencePacker) (rand : Shuffle) (k : ℕ)
    (sequenceLengths : List ℕ) : Except PyError (List (List ℕ)) :=
  match p.algorithm with
  | .concatenative => concatenativePack p.binCapacity sequenceLengths
  | .firstFitDecreasing => firstFitPack p.binCapacity (prepareDecreasing sequenceLengths)
  | .firstFitShuffle => firstFitPack p.binCapacity (prepareShuffle rand k sequenceLengths)
  | .modifiedFirstFitDecreasing => modifiedFirstFitDecreasingPack p.binCapacity sequenceLengths

/-- Pack sequences into bins: the `k`-th call of a packer. -/
def pack (p : SequencePacker) (rand : Shuffle) (k : ℕ) (sequenceLengths : List ℕ) :
    Except PyError (List (List ℕ)) := do
  let bins ← p.packImplementation rand k sequenceLengths
  adjustBinCount p.minBinCount p.binCountMultiple bins

end SequencePacker
end NemoRL.Data.Packing
