import Mathlib
import NemoRL.Error
import NemoRL.Lib.Except
import NemoRL.Lib.Mat

/-!
# Teacher logits from shards

A teacher exposes its logits in shards, each a rectangle of positions and vocabulary. A
context-parallel rank of the student needs all of the vocabulary for its own positions. It
copies what overlaps from every shard, or, when one shard covers its positions for every
sample of a microbatch, takes a view of the storage of the teacher.

The logits are 32-bit floats on both sides, so no conversion is modelled. World sizes are
positive.

## Main definitions

* `assembleTeacherLogitsFromShards` — reassembly of one sample.
* `tryZeroCopyTeacherLogits` — the view.
* `rebuildTeacherFullLogitsFromIpc` — the view, or else the stack of the reassembled samples.
* `IsSharded` — shards that hold a matrix of logits.
-/

namespace NemoRL.XToken

open Lib

/-! ## Storage -/

/-- The storage of a teacher: slots of microbatches, samples, positions, vocabulary. -/
structure Storage (α : Type) where
  slots : ℕ
  samples : ℕ
  seq : ℕ
  vocab : ℕ
  entry : Fin slots → Fin samples → Fin seq → Fin vocab → α

/-- What is raised for an index that is too large. -/
def indexOutOfBounds (index dim size : ℕ) : PyError :=
  ⟨.indexError, s!"index {index} is out of bounds for dimension {dim} with size {size}"⟩

/-- The logits of one sample. -/
def Storage.sample {α : Type} (s : Storage α) (buf sample : ℕ) : Except PyError (Mat α) :=
  if hbuf : buf < s.slots then
    if hsample : sample < s.samples then .ok ⟨s.seq, s.vocab, s.entry ⟨buf, hbuf⟩ ⟨sample, hsample⟩⟩
    else .error (indexOutOfBounds sample 1 s.samples)
  else .error (indexOutOfBounds buf 0 s.slots)

/-- A batch of matrices of one size. -/
structure Batched (α : Type) where
  batch : ℕ
  rows : ℕ
  cols : ℕ
  entry : Fin batch → Fin rows → Fin cols → α

/-- Stack matrices of one size. -/
def stack {α : Type} (ms : List (Mat α)) : Except PyError (Batched α) :=
  match ms with
  | [] => .error ⟨.runtimeError, "stack expects a non-empty TensorList"⟩
  | m :: ms =>
    if h : ∀ m' ∈ m :: ms, m'.rows = m.rows ∧ m'.cols = m.cols then
      .ok ⟨(m :: ms).length, m.rows, m.cols, fun b i j =>
        ((m :: ms).get b).entry (i.cast (h _ (List.get_mem _ b)).1.symm)
          (j.cast (h _ (List.get_mem _ b)).2.symm)⟩
    else .error ⟨.runtimeError, "stack expects each tensor to be equal size"⟩

/-- Where a shard of the teacher logits is stored, and which part of them it is. -/
structure ShardHandle (P : Type) where
  payloadIpc : P
  bufIdx : ℕ
  sampleIndexInBuf : ℕ
  vocabStartIndex : ℕ
  vocabEndIndex : ℕ
  globalSeqStart : ℕ
  actualShape : ℕ × ℕ
  fullSeqLen : ℕ
  fullVocabSize : ℕ

/-- The indices from `start` up to `stop`. -/
structure Slice where
  start : ℕ
  stop : ℕ
  deriving DecidableEq, Repr

/-- A shard with the part to copy and where to copy it to. -/
structure ShardMatch (P : Type) where
  handle : ShardHandle P
  srcSeq : Slice
  srcVocab : Slice
  destSeq : Slice
  destVocab : Slice

/-! ## Reassembly -/

section Assemble
variable {α P : Type}

/-- Plan the copies: the overlap of every shard with the positions of a student rank. -/
def collectOverlappingTeacherShards (teacherShards : List (ShardHandle P))
    (studentCpRank studentCpSize fullSeqLen : ℕ) : List (ShardMatch P) :=
  let studentSeqStart := studentCpRank * fullSeqLen / studentCpSize
  let studentSeqEnd := (studentCpRank + 1) * fullSeqLen / studentCpSize
  teacherShards.filterMap fun handle =>
    let teacherSeqEnd := handle.globalSeqStart + handle.actualShape.1
    let overlapSeqStart := max studentSeqStart handle.globalSeqStart
    let overlapSeqEnd := min studentSeqEnd teacherSeqEnd
    if overlapSeqEnd ≤ overlapSeqStart then none
    else some {
      handle := handle
      srcSeq := ⟨overlapSeqStart - handle.globalSeqStart, overlapSeqEnd - handle.globalSeqStart⟩
      srcVocab := ⟨0, handle.vocabEndIndex - handle.vocabStartIndex⟩
      destSeq := ⟨overlapSeqStart - studentSeqStart, overlapSeqEnd - studentSeqStart⟩
      destVocab := ⟨handle.vocabStartIndex, handle.vocabEndIndex⟩ }

variable (rebuild : P → Storage α)

/-- Copy what a match asks for. -/
def copyMatch (dest : Mat α) (m : ShardMatch P) : Except PyError (Mat α) := do
  let srcFull := rebuild m.handle.payloadIpc
  let sample ← srcFull.sample m.handle.bufIdx m.handle.sampleIndexInBuf
  let src := sample.window 0 m.handle.actualShape.1 0 m.handle.actualShape.2
  let part := src.window m.srcSeq.start m.srcSeq.stop m.srcVocab.start m.srcVocab.stop
  match dest.assign part m.destSeq.start m.destSeq.stop m.destVocab.start m.destVocab.stop with
  | some dest => return dest
  | none => throw ⟨.runtimeError,
      "The expanded size of the tensor must match the existing size at non-singleton dimension"⟩

/-- Reassemble the logits of a sample for the positions of a student rank. -/
def assembleTeacherLogitsFromShards [Zero α] (teacherShards : List (ShardHandle P))
    (studentCpRank studentCpSize : ℕ) : Except PyError (Mat α) :=
  match teacherShards with
  | [] => .error ⟨.valueError, "teacher_shards must be non-empty"⟩
  | first :: rest =>
    if first.fullSeqLen % studentCpSize ≠ 0 then
      .error ⟨.assertionError, s!"full_seq_len={first.fullSeqLen} not divisible by " ++
        s!"student_cp_size={studentCpSize}"⟩
    else
      (collectOverlappingTeacherShards (first :: rest) studentCpRank studentCpSize
        first.fullSeqLen).foldlM (copyMatch rebuild)
        (Mat.of (first.fullSeqLen / studentCpSize) first.fullVocabSize fun _ _ => 0)

/-! ## The view -/

/-- Whether a shard has all of the vocabulary for some positions. -/
def ShardHandle.coversSeq (h : ShardHandle P) (fullVocabSize seqStart seqEnd : ℕ) : Bool :=
  h.vocabStartIndex = 0 ∧ h.vocabEndIndex = fullVocabSize ∧ h.globalSeqStart ≤ seqStart ∧
    seqEnd ≤ h.globalSeqStart + h.actualShape.1

/-- The only covering shard of every sample, if every sample has just one. -/
def chooseCovering (entries : List (List (ShardHandle P))) (fullVocabSize seqStart seqEnd : ℕ) :
    Option (List (ShardHandle P)) :=
  entries.mapM fun shards =>
    match shards.filter fun h => h.coversSeq fullVocabSize seqStart seqEnd with
    | [h] => some h
    | _ => none

/-- A view of samples of one slot. -/
def Storage.view (s : Storage α) (buf samples seqLo seqHi vocab : ℕ) : Except PyError (Batched α) :=
  if hbuf : buf < s.slots then
    .ok ⟨min samples s.samples, min seqHi s.seq - seqLo, min vocab s.vocab, fun b i j =>
      s.entry ⟨buf, hbuf⟩ ⟨b, by omega⟩ ⟨seqLo + i, by omega⟩ ⟨j, by omega⟩⟩
  else .error (indexOutOfBounds buf 0 s.slots)

/-- A view of the logits of a microbatch in the storage of the teacher, where no reassembly
is needed. -/
def tryZeroCopyTeacherLogits [DecidableEq P] (perSampleEntries : List (List (ShardHandle P)))
    (studentCpRank studentCpSize : ℕ) : Except PyError (Option (Batched α)) :=
  match perSampleEntries with
  | [] => .ok none
  | [] :: _ => .ok none
  | (first :: _) :: _ =>
    let studentSeqStart := studentCpRank * first.fullSeqLen / studentCpSize
    let studentSeqEnd := (studentCpRank + 1) * first.fullSeqLen / studentCpSize
    match chooseCovering perSampleEntries first.fullVocabSize studentSeqStart studentSeqEnd with
    | none => .ok none
    | some [] => .ok none
    | some (h₀ :: chosen) =>
      if (h₀ :: chosen).zipIdx.all fun p => p.1.payloadIpc = h₀.payloadIpc ∧
          p.1.bufIdx = h₀.bufIdx ∧ p.1.sampleIndexInBuf = p.2 ∧
          p.1.globalSeqStart = h₀.globalSeqStart then
        ((rebuild h₀.payloadIpc).view h₀.bufIdx (h₀ :: chosen).length
          (studentSeqStart - h₀.globalSeqStart) (studentSeqEnd - h₀.globalSeqStart)
          first.fullVocabSize).map some
      else .ok none

/-- The logits of a microbatch for the positions of a student rank. -/
def rebuildTeacherFullLogitsFromIpc [Zero α] [DecidableEq P]
    (perSampleEntries : List (List (ShardHandle P))) (studentCpRank studentCpSize : ℕ) :
    Except PyError (Batched α) := do
  match ← tryZeroCopyTeacherLogits rebuild perSampleEntries studentCpRank studentCpSize with
  | some view => return view
  | none =>
    let rebuilt ← perSampleEntries.mapM fun shards =>
      assembleTeacherLogitsFromShards rebuild shards studentCpRank studentCpSize
    stack rebuilt

end Assemble

/-! ## Shards of a matrix of logits -/

section Sharded
variable {α P : Type}

/-- Whether the rectangle of a shard has a cell. -/
def ShardHandle.covers (h : ShardHandle P) (s v : ℕ) : Bool :=
  (h.globalSeqStart ≤ s ∧ s < h.globalSeqStart + h.actualShape.1) ∧
    h.vocabStartIndex ≤ v ∧ v < h.vocabEndIndex

/-- Shards whose rectangles partition a matrix of logits and whose storage holds it. -/
structure IsSharded (rebuild : P → Storage α) (full : Mat α) (shards : List (ShardHandle P)) :
    Prop where
  ne_nil : shards ≠ []
  size : ∀ h ∈ shards, h.fullSeqLen = full.rows ∧ h.fullVocabSize = full.cols
  shape : ∀ h ∈ shards, h.vocabStartIndex ≤ h.vocabEndIndex ∧
    h.actualShape.2 = h.vocabEndIndex - h.vocabStartIndex
  within : ∀ h ∈ shards, h.globalSeqStart + h.actualShape.1 ≤ full.rows ∧
    h.vocabEndIndex ≤ full.cols
  partition : ∀ s v, s < full.rows → v < full.cols → shards.countP (fun h => h.covers s v) = 1
  stored : ∀ h ∈ shards, ∃ sample,
    (rebuild h.payloadIpc).sample h.bufIdx h.sampleIndexInBuf = .ok sample ∧
    sample.window 0 h.actualShape.1 0 h.actualShape.2 =
      full.window h.globalSeqStart (h.globalSeqStart + h.actualShape.1) h.vocabStartIndex
        h.vocabEndIndex

/-- Whether a match writes a cell of the positions of the student. -/
def ShardMatch.writes (m : ShardMatch P) (i j : ℕ) : Bool :=
  (m.destSeq.start ≤ i ∧ i < m.destSeq.stop) ∧ m.destVocab.start ≤ j ∧ j < m.destVocab.stop

end Sharded
end NemoRL.XToken
