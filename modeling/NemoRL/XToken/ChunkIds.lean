import NemoRL.XToken.TokenAligner
import Mathlib.Data.Vector.Basic

/-!
# Chunk ids

The pairs of a batch are packed into dense rows. The chunk id of a token is the index of
the pair whose span holds it. The spans are written into a row of `-1` one after another,
behind guards that skip a span outside the row.

## Main definitions

* `pairsToBatch` — packing the pairs of a batch.
* `ChunkRow` — a row that gives every token one chunk id.

## Main results

* `chunkIdRow_of_tiles` — spans that tile a row give it its chunk ids.
* `alignSingle_pairsToBatch` — so do the pairs of the aligner.
-/

namespace NemoRL.XToken

open Lib

/-! ## Packing -/

/-- The alignment of a batch, one row for each sample. -/
structure AlignmentBatch where
  pairValid : List (List Bool)
  pairIsCorrect : List (List Bool)
  studentExactPartitionMask : List (List Bool)
  teacherExactPartitionMask : List (List Bool)
  studentChunkId : List (List ℤ)
  teacherChunkId : List (List ℤ)
  numChunks : List ℕ
  deriving DecidableEq, Repr

/-- Write a value to the positions from `i` up to `j`. -/
def writeSlice (row : List ℤ) (i j : ℕ) (value : ℤ) : List ℤ :=
  row.mapIdx fun k x => if i ≤ k ∧ k < j then value else x

/-- Write the index of a pair to the positions of its span, if it lies in the row. -/
def writeSpan (size : ℕ) (row : List ℤ) (span : ℤ × ℤ) (pairI : ℕ) : List ℤ :=
  if span.1 ≠ -1 ∧ span.2 ≠ -1 then
    if (0 ≤ span.1 ∧ span.1 < size) ∧ 0 < span.2 ∧ span.2 ≤ size then
      writeSlice row span.1.toNat span.2.toNat pairI
    else row
  else row

/-- The chunk ids of one side of a sample. -/
def chunkIdRow (size : ℕ) (spans : List (ℤ × ℤ)) : List ℤ :=
  spans.zipIdx.foldl (fun row p => writeSpan size row p.1 p.2) (List.replicate size (-1))

/-- A correct pair of one token on each side. -/
def AlignmentPair.isExact (pair : AlignmentPair) : Bool :=
  pair.isCorrect ∧ pair.sStart ≠ -1 ∧ pair.tStart ≠ -1 ∧ pair.sEnd - pair.sStart = 1 ∧
    pair.tEnd - pair.tStart = 1

/-- The tokens of one side that an exact pair holds. -/
def exactPartitionRow (size : ℕ) (start : AlignmentPair → ℤ) (pairs : List AlignmentPair) :
    List Bool :=
  pairs.foldl (fun row pair =>
    if pair.isExact ∧ 0 ≤ start pair ∧ start pair < size then row.set (start pair).toNat true
    else row) (List.replicate size false)

def AlignmentPair.studentSpan (pair : AlignmentPair) : ℤ × ℤ := (pair.sStart, pair.sEnd)

def AlignmentPair.teacherSpan (pair : AlignmentPair) : ℤ × ℤ := (pair.tStart, pair.tEnd)

/-- Pack the pairs of a batch of `b` samples. -/
def pairsToBatch (perSamplePairs : List (List AlignmentPair)) (b tS tT : ℕ) :
    Except PyError AlignmentBatch :=
  let maxPairs := max ((perSamplePairs.map List.length).max?.getD 0) 1
  if b < perSamplePairs.length then
    .error ⟨.indexError, s!"index {b} is out of bounds for dimension 0 with size {b}"⟩
  else
    let samples := perSamplePairs ++ List.replicate (b - perSamplePairs.length) []
    .ok
      { pairValid := samples.map fun pairs =>
          (List.range maxPairs).map fun pairI => pairI < pairs.length
        pairIsCorrect := samples.map fun pairs =>
          (List.range maxPairs).map fun pairI =>
            (pairs[pairI]?.map AlignmentPair.isCorrect).getD false
        studentExactPartitionMask := samples.map (exactPartitionRow tS AlignmentPair.sStart)
        teacherExactPartitionMask := samples.map (exactPartitionRow tT AlignmentPair.tStart)
        studentChunkId := samples.map fun pairs =>
          chunkIdRow tS (pairs.map AlignmentPair.studentSpan)
        teacherChunkId := samples.map fun pairs =>
          chunkIdRow tT (pairs.map AlignmentPair.teacherSpan)
        numChunks := samples.map List.length }

/-! ## One row -/

/-- The span has a position and holds the token. -/
def Holds (span : ℤ × ℤ) (x : ℕ) : Prop := span.1 ≠ -1 ∧ span.1 ≤ x ∧ (x : ℤ) < span.2

/-- A row that gives every token one chunk id, with no span skipped by a guard. -/
structure ChunkRow (size : ℕ) (spans : List (ℤ × ℤ)) (row : List ℤ) : Prop where
  length : row.length = size
  /-- A span with a position passes the guards. -/
  guards : ∀ span ∈ spans, span.1 ≠ -1 →
    span.2 ≠ -1 ∧ (0 ≤ span.1 ∧ span.1 < size) ∧ 0 < span.2 ∧ span.2 ≤ size
  /-- The id of a token is the index of the one span that holds it. -/
  unique : ∀ x < size, ∃ k : ℕ, row[x]? = some (k : ℤ) ∧
    ∀ k', (∃ span, spans[k']? = some span ∧ Holds span x) ↔ k' = k
  sorted : row.Pairwise (· ≤ ·)

section Row
variable {size x : ℕ} {row : List ℤ} {span : ℤ × ℤ} {spans : List (ℤ × ℤ)}

theorem length_writeSpan (size : ℕ) (row : List ℤ) (span : ℤ × ℤ) (pairI : ℕ) :
    (writeSpan size row span pairI).length = row.length := by
  rw [writeSpan]
  split
  case isFalse => rfl
  case isTrue =>
    split
    case isFalse => rfl
    case isTrue => exact List.length_mapIdx

/-- A span inside the row writes to the tokens it holds. -/
theorem getElem?_writeSpan_of_holds (h : Holds span x) (hpos : 0 ≤ span.1)
    (hsize : span.2 ≤ size) (hx : x < row.length) (pairI : ℕ) :
    (writeSpan size row span pairI)[x]? = some (pairI : ℤ) := by
  obtain ⟨hstart, hle, hlt⟩ := h
  have hguard : (0 ≤ span.1 ∧ span.1 < size) ∧ 0 < span.2 ∧ span.2 ≤ size := by omega
  have hin : span.1.toNat ≤ x ∧ x < span.2.toNat := by omega
  rw [writeSpan, if_pos ⟨hstart, by omega⟩, if_pos hguard, writeSlice, List.getElem?_mapIdx,
    List.getElem?_eq_getElem hx, Option.map_some, if_pos hin]

/-- A span does not write to the tokens it does not hold. -/
theorem getElem?_writeSpan_of_not_holds (h : ¬Holds span x) (pairI : ℕ) :
    (writeSpan size row span pairI)[x]? = row[x]? := by
  rw [writeSpan]
  split
  case isFalse => rfl
  case isTrue hstart =>
    split
    case isFalse => rfl
    case isTrue hguard =>
      have hout : ¬(span.1.toNat ≤ x ∧ x < span.2.toNat) := by
        intro hin
        exact h ⟨hstart.1, by omega, by omega⟩
      rw [writeSlice, List.getElem?_mapIdx]
      simp only [if_neg hout, Option.map_id']

theorem getElem?_foldl_of_not_holds (h : ∀ span ∈ spans, ¬Holds span x) (n : ℕ) :
    ((spans.zipIdx n).foldl (fun row p => writeSpan size row p.1 p.2) row)[x]? = row[x]? := by
  induction spans generalizing row n with
  | nil => rfl
  | cons span spans ih =>
    rw [List.zipIdx_cons, List.foldl_cons, ih fun s hs => h s (List.mem_cons_of_mem span hs)]
    exact getElem?_writeSpan_of_not_holds (h span List.mem_cons_self) n

theorem length_foldl (size n : ℕ) (row : List ℤ) (spans : List (ℤ × ℤ)) :
    ((spans.zipIdx n).foldl (fun row p => writeSpan size row p.1 p.2) row).length =
      row.length := by
  induction spans generalizing row n with
  | nil => rfl
  | cons span spans ih =>
    rw [List.zipIdx_cons, List.foldl_cons, ih, length_writeSpan]

/-- The id of a token is the index of the span that holds it, when no other does. -/
theorem getElem?_foldl_of_holds {n k : ℕ} (hx : x < row.length)
    (hinside : ∀ span ∈ spans, Holds span x → 0 ≤ span.1 ∧ span.2 ≤ size)
    (hunique : spans.Pairwise fun p q => Holds p x → ¬Holds q x)
    (hk : spans[k]? = some span) (h : Holds span x) :
    ((spans.zipIdx n).foldl (fun row p => writeSpan size row p.1 p.2) row)[x]? =
      some ((n + k : ℕ) : ℤ) := by
  induction spans generalizing row n k with
  | nil => exact nomatch hk
  | cons first spans ih =>
    obtain ⟨hfirst, hunique⟩ := List.pairwise_cons.mp hunique
    rw [List.zipIdx_cons, List.foldl_cons]
    cases k with
    | zero =>
      obtain rfl : first = span := by simpa using hk
      obtain ⟨hpos, hsize⟩ := hinside first List.mem_cons_self h
      rw [getElem?_foldl_of_not_holds fun q hq => hfirst q hq h]
      exact getElem?_writeSpan_of_holds h hpos hsize hx n
    | succ k =>
      rw [ih (by rwa [length_writeSpan]) (fun q hq => hinside q (List.mem_cons_of_mem first hq))
        hunique hk, Nat.add_right_comm, Nat.add_assoc]

/-- Spans that tile a row give every token one chunk id. -/
theorem chunkIdRow_of_tiles (h : Tiles (spans.filter fun span => span.1 ≠ -1) 0 size) :
    ChunkRow size spans (chunkIdRow size spans) := by
  have hinside : ∀ span ∈ spans, span.1 ≠ -1 → 0 ≤ span.1 ∧ span.1 < span.2 ∧ span.2 ≤ size :=
    fun span hspan hstart => h.mem (List.mem_filter.mpr ⟨hspan, by simpa using hstart⟩)
  have horder : spans.Pairwise fun p q => p.1 ≠ -1 → q.1 ≠ -1 → p.2 ≤ q.1 := by
    simpa [List.pairwise_filter] using h.pairwise
  have hapart : ∀ x, spans.Pairwise fun p q => Holds p x → ¬Holds q x := by
    intro x
    refine horder.imp fun hpq hp hq => ?_
    have := hpq hp.1 hq.1
    have := hp.2.2
    have := hq.2.1
    omega
  have hlen : (chunkIdRow size spans).length = size := by
    rw [chunkIdRow, length_foldl, List.length_replicate]
  have hid : ∀ {x k : ℕ} {span : ℤ × ℤ}, x < size → spans[k]? = some span → Holds span x →
      (chunkIdRow size spans)[x]? = some (k : ℤ) := by
    intro x k span hx hk hspan
    have hrow : x < (List.replicate size (-1 : ℤ)).length := by simpa using hx
    have hwritten := getElem?_foldl_of_holds (n := 0) hrow
      (fun p hp hpx => ⟨(hinside p hp hpx.1).1, (hinside p hp hpx.1).2.2⟩) (hapart x) hk hspan
    rwa [zero_add] at hwritten
  have hexists : ∀ x < size, ∃ (k : ℕ) (span : ℤ × ℤ), spans[k]? = some span ∧ Holds span x := by
    intro x hx
    obtain ⟨span, hspan, hle, hlt⟩ := h.exists_mem (x := x) (by omega) (by omega)
    obtain ⟨hmem, hstart⟩ := List.mem_filter.mp hspan
    obtain ⟨k, hk⟩ := List.mem_iff_getElem?.mp hmem
    exact ⟨k, span, hk, by simpa using hstart, hle, hlt⟩
  refine ⟨hlen, ?_, ?_, ?_⟩
  · intro span hspan hstart
    have := hinside span hspan hstart
    omega
  · intro x hx
    obtain ⟨k, span, hk, hspan⟩ := hexists x hx
    refine ⟨k, hid hx hk hspan, fun k' => ⟨?_, ?_⟩⟩
    · rintro ⟨span', hk', hspan'⟩
      have hsame := (hid hx hk' hspan').symm.trans (hid hx hk hspan)
      exact Int.natCast_inj.mp (Option.some.inj hsame)
    · rintro rfl
      exact ⟨span, hk, hspan⟩
  · rw [List.pairwise_iff_getElem]
    intro x y hx hy hxy
    rw [hlen] at hx hy
    obtain ⟨k, p, hk, hp⟩ := hexists x hx
    obtain ⟨m, q, hm, hq⟩ := hexists y hy
    rw [(List.getElem_eq_iff _).mpr (hid hx hk hp), (List.getElem_eq_iff _).mpr (hid hy hm hq),
      Int.ofNat_le]
    by_contra hlt
    -- a span with a smaller index would end before the first token
    obtain ⟨hk', hkp⟩ := List.getElem?_eq_some_iff.mp hk
    obtain ⟨hm', hmq⟩ := List.getElem?_eq_some_iff.mp hm
    have hend := List.pairwise_iff_getElem.mp horder m k hm' hk' (by omega)
    rw [hkp, hmq] at hend
    have := hend hq.1 hp.1
    have := hp.2.1
    have := hq.2.2
    omega

end Row

/-! ## The rows of a batch -/

theorem studentSpans_eq_filter (pairs : List AlignmentPair) :
    studentSpans pairs =
      (pairs.map AlignmentPair.studentSpan).filter fun span => span.1 ≠ -1 := by
  rw [studentSpans, spansOf, List.filter_map, List.filter_map, List.map_map]
  rfl

theorem teacherSpans_eq_filter (pairs : List AlignmentPair) :
    teacherSpans pairs =
      (pairs.map AlignmentPair.teacherSpan).filter fun span => span.1 ≠ -1 := by
  rw [teacherSpans, spansOf, List.filter_map, List.filter_map, List.map_map]
  rfl

/-- Packing pairs whose spans tile the rows of a batch. -/
theorem pairsToBatch_chunkRow {tS tT : ℕ} {perSamplePairs : List (List AlignmentPair)}
    (h : ∀ pairs ∈ perSamplePairs,
      Tiles (studentSpans pairs) 0 tS ∧ Tiles (teacherSpans pairs) 0 tT) :
    ∃ batch, pairsToBatch perSamplePairs perSamplePairs.length tS tT = .ok batch ∧
      List.Forall₂ (fun pairs row => ChunkRow tS (pairs.map AlignmentPair.studentSpan) row)
        perSamplePairs batch.studentChunkId ∧
      List.Forall₂ (fun pairs row => ChunkRow tT (pairs.map AlignmentPair.teacherSpan) row)
        perSamplePairs batch.teacherChunkId := by
  refine ⟨_, by rw [pairsToBatch, if_neg (lt_irrefl _)], ?_, ?_⟩
  · rw [Nat.sub_self, List.replicate_zero, List.append_nil, List.forall₂_map_right_iff,
      List.forall₂_same]
    exact fun pairs hpairs =>
      chunkIdRow_of_tiles (studentSpans_eq_filter pairs ▸ (h pairs hpairs).1)
  · rw [Nat.sub_self, List.replicate_zero, List.append_nil, List.forall₂_map_right_iff,
      List.forall₂_same]
    exact fun pairs hpairs =>
      chunkIdRow_of_tiles (teacherSpans_eq_filter pairs ▸ (h pairs hpairs).2)

/-- The spans of the pairs of every sample tile both sequences. Packed into a batch, they
give every token of both sides exactly one chunk id, in order, and no guard skips a span. -/
theorem alignSingle_pairsToBatch {R : Type} [Zero R] [Add R] [Neg R] [Mul R] [NatCast R] [LT R]
    [DecidableLT R] (scoring : Scoring R) (anchorLengths : List ℕ) :
    (∀ studentTokens teacherTokens : List Token, ∃ pairs,
      alignSingle scoring studentTokens teacherTokens anchorLengths = .ok pairs ∧
        Tiles (studentSpans pairs) 0 studentTokens.length ∧
        Tiles (teacherSpans pairs) 0 teacherTokens.length) ∧
      ∀ (tS tT : ℕ) (samples : List (List.Vector Token tS × List.Vector Token tT)),
        ∃ perSamplePairs batch,
          samples.mapM (fun x => alignSingle scoring x.1.toList x.2.toList anchorLengths) =
            .ok perSamplePairs ∧
          pairsToBatch perSamplePairs samples.length tS tT = .ok batch ∧
          List.Forall₂ (fun pairs row => ChunkRow tS (pairs.map AlignmentPair.studentSpan) row)
            perSamplePairs batch.studentChunkId ∧
          List.Forall₂ (fun pairs row => ChunkRow tT (pairs.map AlignmentPair.teacherSpan) row)
            perSamplePairs batch.teacherChunkId := by
  refine ⟨fun s t => alignSingle_tiles scoring s t anchorLengths, fun tS tT samples => ?_⟩
  have hreturns : ∀ x ∈ samples, ∃ pairs,
      alignSingle scoring x.1.toList x.2.toList anchorLengths = .ok pairs ∧
        Tiles (studentSpans pairs) 0 tS ∧ Tiles (teacherSpans pairs) 0 tT := by
    intro x _
    have := alignSingle_tiles scoring x.1.toList x.2.toList anchorLengths
    rwa [x.1.toList_length, x.2.toList_length] at this
  obtain ⟨perSamplePairs, hpairs, hall⟩ := exists_mapM_forall₂ hreturns
  have htiles : ∀ pairs ∈ perSamplePairs,
      Tiles (studentSpans pairs) 0 tS ∧ Tiles (teacherSpans pairs) 0 tT := by
    intro pairs hmem
    obtain ⟨i, hi, rfl⟩ := List.mem_iff_getElem.mp hmem
    exact (List.forall₂_iff_get.mp hall).2 i (hall.length_eq ▸ hi) hi
  obtain ⟨batch, hbatch, hs, ht⟩ := pairsToBatch_chunkRow htiles
  exact ⟨perSamplePairs, batch, hpairs, hall.length_eq ▸ hbatch, hs, ht⟩

end NemoRL.XToken
