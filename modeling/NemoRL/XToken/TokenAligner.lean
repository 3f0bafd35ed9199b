import NemoRL.Error
import NemoRL.Lib.Except
import NemoRL.XToken.Anchors
import NemoRL.XToken.PostProcess

/-!
# Aligning one sample

The aligner works on canonical tokens. The positions of its pairs are moved back to the
original tokens at the end: a pair starts where its first canonical token starts, and ends
where its last one ends.

## Main definitions

* `remapPairsToOriginal` — moving positions to the original tokens.
* `alignSingle` — the whole pipeline.

## Main results

* `alignSingle_tiles` — on both sides, the spans of the pairs tile the sequence.
-/

namespace NemoRL.XToken

open Lib

/-! ## The pipeline -/

/-- Index a list, from the end when the index is negative. -/
def getItem {α : Type} (l : List α) (i : ℤ) : Except PyError α :=
  match (if 0 ≤ i then l[i.toNat]?
    else if -l.length ≤ i then l[(l.length + i).toNat]? else none) with
  | some x => .ok x
  | none => .error ⟨.indexError, "list index out of range"⟩

/-- Move a span of canonical tokens to the original tokens. -/
def remapSpan (canonToOrig : List (ℤ × ℤ)) (start stop : ℤ) : Except PyError (ℤ × ℤ) :=
  if start ≠ -1 then do
    let first ← getItem canonToOrig start
    let last ← getItem canonToOrig (stop - 1)
    return (first.1, last.2)
  else return (start, stop)

/-- Move the spans of all pairs to the original tokens. -/
def remapPairsToOriginal (studentCanonToOrig teacherCanonToOrig : List (ℤ × ℤ))
    (pairs : List AlignmentPair) : Except PyError (List AlignmentPair) :=
  pairs.mapM fun pair => do
    let s ← remapSpan studentCanonToOrig pair.sStart pair.sEnd
    let t ← remapSpan teacherCanonToOrig pair.tStart pair.tEnd
    return { pair with sStart := s.1, sEnd := s.2, tStart := t.1, tEnd := t.2 }

/-- Whether the canonical texts of each pair agree. -/
def alignmentMask (pairs : List AlignmentPair) : List Bool := pairs.map AlignmentPair.isMatch

/-- Align the tokens of one sample. The anchor lengths are `[3]` unless given. -/
def alignSingle {R : Type} [Zero R] [Add R] [Neg R] [Mul R] [NatCast R] [LT R] [DecidableLT R]
    (scoring : Scoring R) (studentTokens teacherTokens : List Token)
    (anchorLengths : List ℕ) : Except PyError (List AlignmentPair) := do
  let (studentCanon, studentCanonToOrig) := canonicalizeSequence studentTokens
  let (teacherCanon, teacherCanonToOrig) := canonicalizeSequence teacherTokens
  let scoring := { scoring with ignoreLeadingCharDiff := false }
  let aligned := (alignWithAnchors scoring studentCanon teacherCanon anchorLengths).1
  let aligned := postProcessAlignment scoring aligned
  let aligned ← remapPairsToOriginal studentCanonToOrig teacherCanonToOrig aligned
  return List.zipWith (fun pair m => { pair with isCorrect := m }) aligned (alignmentMask aligned)

/-! ## The spans on the original tokens -/

/-- Where the canonical token with number `x` starts in the original tokens. After the last
token, where it ends. -/
def boundary (canonToOrig : List (ℤ × ℤ)) (x : ℤ) : ℤ := (edges canonToOrig 0).getD x.toNat 0

section Remap
variable {l : List (ℤ × ℤ)} {b : ℤ}

theorem getItem_of_getElem? {α : Type} {l : List α} {i : ℤ} (hi : 0 ≤ i) {x : α}
    (hx : l[i.toNat]? = some x) : getItem l i = .ok x := by
  simp only [getItem, if_pos hi, hx]

theorem boundary_of_getElem? {x : ℤ} {y : ℤ} (h : (edges l 0)[x.toNat]? = some y) :
    boundary l x = y := by
  rw [boundary, List.getD_eq_getElem?_getD, h, Option.getD_some]

theorem boundary_zero : boundary l 0 = 0 := rfl

theorem boundary_length (h : Tiles l 0 b) : boundary l l.length = b :=
  boundary_of_getElem? h.getElem?_length

theorem boundary_lt (h : Tiles l 0 b) {x y : ℤ} (hx : 0 ≤ x) (hxy : x < y)
    (hy : y ≤ l.length) : boundary l x < boundary l y := by
  have hlen : (edges l 0).length = l.length + 1 := by simp [edges]
  have hx' : x.toNat < (edges l 0).length := by omega
  have hy' : y.toNat < (edges l 0).length := by omega
  rw [boundary_of_getElem? (List.getElem?_eq_getElem hx'),
    boundary_of_getElem? (List.getElem?_eq_getElem hy')]
  exact List.pairwise_iff_getElem.mp h.edges_lt _ _ hx' hy' (by omega)

/-- A span with its ends moved by `boundary`. -/
def movedSpan (canonToOrig : List (ℤ × ℤ)) (start stop : ℤ) : ℤ × ℤ :=
  if start ≠ -1 then (boundary canonToOrig start, boundary canonToOrig stop) else (start, stop)

theorem remapSpan_eq (h : Tiles l 0 b) {start stop : ℤ}
    (hspan : start ≠ -1 → 0 ≤ start ∧ start < stop ∧ stop ≤ l.length) :
    remapSpan l start stop = .ok (movedSpan l start stop) := by
  rw [remapSpan, movedSpan]
  by_cases hstart : start ≠ -1
  · obtain ⟨hpos, hlt, hle⟩ := hspan hstart
    have hfirst := List.getElem?_eq_getElem (l := l) (i := start.toNat) (by omega)
    have hlast := List.getElem?_eq_getElem (l := l) (i := (stop - 1).toNat) (by omega)
    have hstop : (stop - 1).toNat + 1 = stop.toNat := by omega
    have hsnd := getElem?_snd (a := 0) hlast
    rw [hstop] at hsnd
    rw [if_pos hstart, if_pos hstart, getItem_of_getElem? hpos hfirst,
      getItem_of_getElem? (by omega) hlast, boundary_of_getElem? (h.getElem?_fst hfirst),
      boundary_of_getElem? hsnd]
    rfl
  · rw [if_neg hstart, if_neg hstart]
    rfl

/-- A segment with its span moved. -/
def movedSegment (canonToOrig : List (ℤ × ℤ)) (x : Segment Token) : Segment Token :=
  ⟨x.items, (movedSpan canonToOrig x.start x.stop).1, (movedSpan canonToOrig x.start x.stop).2⟩

/-- Moving segments moves their spans. -/
theorem spansOf_movedSegment {xs : List (Segment Token)}
    (hpos : ∀ x ∈ xs, x.start ≠ -1 → boundary l x.start ≠ -1) :
    spansOf (xs.map (movedSegment l)) =
      (spansOf xs).map fun p => (boundary l p.1, boundary l p.2) := by
  induction xs with
  | nil => rfl
  | cons x xs ih =>
    have hrest := ih fun y hy => hpos y (List.mem_cons_of_mem x hy)
    simp only [spansOf] at hrest ⊢
    by_cases hstart : x.start ≠ -1
    · have hnew : (movedSegment l x).start ≠ -1 := by
        simpa only [movedSegment, movedSpan, if_pos hstart] using hpos x List.mem_cons_self hstart
      rw [List.map_cons, List.filter_cons_of_pos (by simpa using hnew), List.map_cons, hrest,
        List.filter_cons_of_pos (by simpa using hstart), List.map_cons, List.map_cons]
      simp only [movedSegment, movedSpan, if_pos hstart]
    · have hnew : ¬(movedSegment l x).start ≠ -1 := by
        simpa only [movedSegment, movedSpan, if_neg hstart] using hstart
      rw [List.map_cons, List.filter_cons_of_neg (by simpa using hnew), hrest,
        List.filter_cons_of_neg (by simpa using hstart)]

/-- Moving one side of an alignment: no index is out of range, and the spans tile the
original tokens. -/
theorem remapSide {xs : List (Segment Token)} (h : Tiles l 0 b) (hxs : Covers 0 xs)
    (hlen : (itemsOf xs).length = l.length) :
    (∀ x ∈ xs, remapSpan l x.start x.stop = .ok (movedSpan l x.start x.stop)) ∧
      Tiles (spansOf (xs.map (movedSegment l))) 0 b := by
  have htiles := hxs.tiles le_rfl
  rw [hlen, zero_add] at htiles
  have hspan : ∀ x ∈ xs, x.start ≠ -1 → 0 ≤ x.start ∧ x.start < x.stop ∧ x.stop ≤ l.length := by
    intro x hx hstart
    have hmem : (x.start, x.stop) ∈ spansOf xs :=
      List.mem_map_of_mem (List.mem_filter.mpr ⟨hx, by simpa using hstart⟩)
    exact htiles.mem hmem
  have hpos : ∀ x ∈ xs, x.start ≠ -1 → boundary l x.start ≠ -1 := by
    intro x hx hstart
    obtain ⟨hle, hlt, hstop⟩ := hspan x hx hstart
    rcases hle.eq_or_lt with hzero | hgt
    · rw [← hzero, boundary_zero]
      omega
    · have := boundary_lt h le_rfl hgt (by omega)
      rw [boundary_zero] at this
      omega
  refine ⟨fun x hx => remapSpan_eq h (hspan x hx), ?_⟩
  have hmoved := htiles.map fun x y => boundary_lt h
  rwa [boundary_zero, boundary_length h, ← spansOf_movedSegment hpos] at hmoved

end Remap

/-- The pairs that `remapPairsToOriginal` returns. -/
def movedPair (studentCanonToOrig teacherCanonToOrig : List (ℤ × ℤ)) (pair : AlignmentPair) :
    AlignmentPair :=
  { pair with
    sStart := (movedSpan studentCanonToOrig pair.sStart pair.sEnd).1
    sEnd := (movedSpan studentCanonToOrig pair.sStart pair.sEnd).2
    tStart := (movedSpan teacherCanonToOrig pair.tStart pair.tEnd).1
    tEnd := (movedSpan teacherCanonToOrig pair.tStart pair.tEnd).2 }

/-- Moving the positions of an alignment of canonical tokens. -/
theorem remapPairsToOriginal_tiles {ls lt : List (ℤ × ℤ)} {m n : ℤ} {s t : List Token}
    {pairs : List AlignmentPair} (hs : Tiles ls 0 m) (ht : Tiles lt 0 n)
    (h : Aligns s t 0 0 pairs) (hsLen : s.length = ls.length) (htLen : t.length = lt.length) :
    ∃ moved, remapPairsToOriginal ls lt pairs = .ok moved ∧
      Tiles (studentSpans moved) 0 m ∧ Tiles (teacherSpans moved) 0 n := by
  obtain ⟨hsRemap, hsTiles⟩ := remapSide hs h.student (h.sTokens ▸ hsLen)
  obtain ⟨htRemap, htTiles⟩ := remapSide ht h.teacher (h.tTokens ▸ htLen)
  refine ⟨pairs.map (movedPair ls lt), ?_, ?_, ?_⟩
  · refine mapM_of_forall fun pair hpair => ?_
    have hsPair := hsRemap pair.student (List.mem_map_of_mem hpair)
    have htPair := htRemap pair.teacher (List.mem_map_of_mem hpair)
    simp only [AlignmentPair.student, AlignmentPair.teacher] at hsPair htPair
    rw [hsPair, htPair]
    rfl
  · rw [studentSpans]
    rw [List.map_map] at hsTiles ⊢
    exact hsTiles
  · rw [teacherSpans]
    rw [List.map_map] at htTiles ⊢
    exact htTiles

/-- Marking the pairs moves no span. -/
theorem spans_zipWith_mask (pairs : List AlignmentPair) (mask : AlignmentPair → Bool) :
    let marked := List.zipWith (fun pair m => { pair with isCorrect := m }) pairs (pairs.map mask)
    studentSpans marked = studentSpans pairs ∧ teacherSpans marked = teacherSpans pairs := by
  simp only [studentSpans, teacherSpans, List.zipWith_map_right, List.zipWith_self, List.map_map]
  exact ⟨rfl, rfl⟩

/-- Aligning a sample returns, and the spans of its pairs tile both sequences. -/
theorem alignSingle_tiles {R : Type} [Zero R] [Add R] [Neg R] [Mul R] [NatCast R] [LT R]
    [DecidableLT R] (scoring : Scoring R) (studentTokens teacherTokens : List Token)
    (anchorLengths : List ℕ) :
    ∃ pairs, alignSingle scoring studentTokens teacherTokens anchorLengths = .ok pairs ∧
      Tiles (studentSpans pairs) 0 studentTokens.length ∧
      Tiles (teacherSpans pairs) 0 teacherTokens.length := by
  have haligned := alignWithAnchors_aligns { scoring with ignoreLeadingCharDiff := false }
    (canonicalizeSequence studentTokens).1 (canonicalizeSequence teacherTokens).1 anchorLengths
  have hprocessed := postProcessAlignment_aligns { scoring with ignoreLeadingCharDiff := false }
    le_rfl le_rfl haligned
  obtain ⟨moved, hmoved, hs, ht⟩ := remapPairsToOriginal_tiles
    (canonicalizeSequence_tiles studentTokens) (canonicalizeSequence_tiles teacherTokens)
    hprocessed (length_canonicalizeSequence _) (length_canonicalizeSequence _)
  obtain ⟨hsMask, htMask⟩ := spans_zipWith_mask moved AlignmentPair.isMatch
  refine ⟨_, by simp only [alignSingle, hmoved]; rfl, ?_, ?_⟩
  · exact hsMask ▸ hs
  · exact htMask ▸ ht

end NemoRL.XToken
