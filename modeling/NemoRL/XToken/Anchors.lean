import NemoRL.XToken.AlignDP
import Mathlib.Order.Interval.Finset.Nat
import Mathlib.Data.List.Sort

/-!
# Anchors

Long sequences are aligned piecewise. An n-gram that occurs once in each sequence is an
anchor; anchors that neither overlap nor cross split both sequences into segments, and the
kernel only aligns the segments.

## Main definitions

* `potentialAnchors`, `selectAnchors`, `validateAnchors` — finding the anchors.
* `alignWithAnchors` — aligning the segments between the anchors.

## Main results

* `alignWithAnchors_aligns` — the pairs hold all tokens of both sequences.
-/

namespace NemoRL.XToken

open Lib

/-- Move pairs by an offset for each side, splitting spans of the same tokens. -/
def shiftPairs (pairs : List AlignmentPair) (shiftS shiftT : ℕ) : List AlignmentPair :=
  (pairs.map (AlignmentPair.shift shiftS shiftT)).flatMap fun pair =>
    if pair.isCoarse ∧ 0 ≤ pair.sStart ∧ 0 ≤ pair.tStart then pair.splitTokens else [pair]

theorem shiftPairs_aligns {s t : List Token} {pairs : List AlignmentPair}
    (h : Aligns s t 0 0 pairs) (shiftS shiftT : ℕ) :
    Aligns s t shiftS shiftT (shiftPairs pairs shiftS shiftT) := by
  have hshift := h.shift le_rfl le_rfl shiftS shiftT
  rw [zero_add, zero_add] at hshift
  refine hshift.refine fun pair a b hs ht => ?_
  split
  case isTrue hsplit => exact hsplit.1.splitTokens_aligns hs ht
  case isFalse => exact Aligns.single hs ht

/-! ## Finding anchors -/

/-- An n-gram of length `k` at position `i` of the student and `j` of the teacher. -/
structure Anchor where
  i : ℕ
  j : ℕ
  k : ℕ
  deriving DecidableEq, Repr

/-- All n-grams of a sequence, by position. -/
def ngrams (tokens : List Token) (anchorLen : ℕ) : List (List Token) :=
  (List.range (tokens.length + 1 - anchorLen)).map fun i => slice tokens i (i + anchorLen)

section Anchors
variable (studentTokens teacherTokens : List Token)

/-- The n-grams of one length that occur once in each sequence. -/
def anchorsOfLength (anchorLen : ℕ) : List Anchor :=
  (List.range (studentTokens.length + 1 - anchorLen)).filterMap fun i =>
    let ngram := slice studentTokens i (i + anchorLen)
    let j := (ngrams teacherTokens anchorLen).idxOf ngram
    if (ngrams studentTokens anchorLen).count ngram = 1 ∧
        (ngrams teacherTokens anchorLen).count ngram = 1 ∧
        (anchorLen = 1 ∨ i + anchorLen ≤ studentTokens.length ∧
          j + anchorLen ≤ teacherTokens.length ∧ ngram = slice teacherTokens j (j + anchorLen)) then
      some ⟨i, j, anchorLen⟩
    else none

def potentialAnchors (anchorLengths : List ℕ) : List Anchor :=
  anchorLengths.flatMap (anchorsOfLength studentTokens teacherTokens)

omit studentTokens teacherTokens

/-- Longer anchors come first, then earlier ones. -/
def Anchor.preferred (x y : Anchor) : Bool :=
  y.k < x.k ∨ y.k = x.k ∧ (x.i < y.i ∨ x.i = y.i ∧ x.j ≤ y.j)

/-- Earlier anchors come first. -/
def Anchor.earlier (x y : Anchor) : Bool :=
  x.i < y.i ∨ x.i = y.i ∧ (x.j < y.j ∨ x.j = y.j ∧ x.k ≤ y.k)

/-- The anchors taken so far and the positions they use. -/
structure Selection where
  selected : List Anchor := []
  usedStudent : Finset ℕ := ∅
  usedTeacher : Finset ℕ := ∅

/-- Take an anchor unless one of its positions is used. -/
def Selection.take (sel : Selection) (x : Anchor) : Selection :=
  let r₁ := Finset.Ico x.i (x.i + x.k)
  let r₂ := Finset.Ico x.j (x.j + x.k)
  if Disjoint r₁ sel.usedStudent ∧ Disjoint r₂ sel.usedTeacher then
    ⟨sel.selected ++ [x], sel.usedStudent ∪ r₁, sel.usedTeacher ∪ r₂⟩
  else sel

/-- Take anchors greedily, and order them by position. -/
def selectAnchors (potential : List Anchor) : List Anchor :=
  let sel := (potential.mergeSort Anchor.preferred).foldl Selection.take {}
  sel.selected.mergeSort Anchor.earlier

variable (studentTokens teacherTokens : List Token)

/-- Drop the anchors that cross an earlier one. -/
def validateAnchors (lastJ : ℤ) : List Anchor → List Anchor
  | [] => []
  | x :: xs =>
    if lastJ < x.j ∧
        slice studentTokens x.i (x.i + x.k) = slice teacherTokens x.j (x.j + x.k) then
      x :: validateAnchors (x.j + x.k - 1) xs
    else validateAnchors lastJ xs

end Anchors

/-! ## Aligning -/

section Align
variable {R : Type} [Zero R] [Add R] [Neg R] [Mul R] [NatCast R] [LT R] [DecidableLT R]
variable (scoring : Scoring R) (studentTokens teacherTokens : List Token)

/-- Align the tokens from `i` to `i'` with those from `j` to `j'`. -/
def alignSegment (i i' j j' : ℕ) : List AlignmentPair :=
  let studentSeg := slice studentTokens i i'
  let teacherSeg := slice teacherTokens j j'
  if studentSeg ≠ [] ∨ teacherSeg ≠ [] then
    shiftPairs (alignDP scoring studentSeg teacherSeg).1 i j
  else []

omit [Zero R] [Add R] [Neg R] [Mul R] [NatCast R] [LT R] [DecidableLT R] in
/-- The pairs of the tokens of an anchor. -/
def anchorPairs (x : Anchor) : List AlignmentPair :=
  (List.range x.k).map fun kk =>
    { sTokens := [studentTokens.getD (x.i + kk) []]
      tTokens := [teacherTokens.getD (x.j + kk) []]
      sStart := (x.i + kk : ℕ)
      sEnd := (x.i + kk + 1 : ℕ)
      tStart := (x.j + kk : ℕ)
      tEnd := (x.j + kk + 1 : ℕ) }

/-- Align the segments between anchors and after the last. -/
def alignSegments (lastI lastJ : ℕ) : List Anchor → List AlignmentPair
  | [] => alignSegment scoring studentTokens teacherTokens lastI studentTokens.length
      lastJ teacherTokens.length
  | x :: xs =>
    alignSegment scoring studentTokens teacherTokens lastI x.i lastJ x.j ++
      (anchorPairs studentTokens teacherTokens x ++ alignSegments (x.i + x.k) (x.j + x.k) xs)

/-- Align two sequences piecewise. Without anchors the kernel aligns them as a whole. -/
def alignWithAnchors (anchorLengths : List ℕ) : List AlignmentPair × R :=
  if anchorLengths = [] then alignDP scoring studentTokens teacherTokens
  else
    let selected := selectAnchors (potentialAnchors studentTokens teacherTokens anchorLengths)
    let validated := validateAnchors studentTokens teacherTokens (-1) selected
    if validated = [] then alignDP scoring studentTokens teacherTokens
    else (alignSegments scoring studentTokens teacherTokens 0 0 validated, 0)

end Align

/-! ## The anchors neither overlap nor cross -/

/-- The n-gram of an anchor lies in both sequences. Only two empty sequences have an
anchor without tokens. -/
structure Anchor.Valid (s t : List Token) (x : Anchor) : Prop where
  student : x.i + x.k ≤ s.length
  teacher : x.j + x.k ≤ t.length
  pos : x.k = 0 → s.length = 0

section Order
variable {s t : List Token} {x y : Anchor} {xs : List Anchor}

theorem anchorsOfLength_valid {anchorLen : ℕ} (hx : x ∈ anchorsOfLength s t anchorLen) :
    x.Valid s t := by
  obtain ⟨i, hi, hx⟩ := List.mem_filterMap.mp hx
  rw [List.mem_range] at hi
  simp only [Option.ite_none_right_eq_some, Option.some.injEq] at hx
  obtain ⟨⟨hstudent, hteacher, -⟩, rfl⟩ := hx
  have hmem : slice s i (i + anchorLen) ∈ ngrams t anchorLen :=
    List.count_pos_iff.mp (hteacher ▸ Nat.one_pos)
  have hj := List.idxOf_lt_length_of_mem hmem
  rw [ngrams, List.length_map, List.length_range] at hj
  refine ⟨by simp only; omega, by simp only; rw [ngrams]; omega, fun hzero => ?_⟩
  obtain rfl : anchorLen = 0 := hzero
  have hall : ngrams s 0 = List.replicate (s.length + 1) [] := by
    simp [ngrams, slice, List.map_const']
  have hone : s.length + 1 = 1 := by
    simpa [hall, slice] using hstudent
  omega

theorem potentialAnchors_valid {anchorLengths : List ℕ}
    (hx : x ∈ potentialAnchors s t anchorLengths) : x.Valid s t := by
  obtain ⟨anchorLen, -, hx⟩ := List.mem_flatMap.mp hx
  exact anchorsOfLength_valid hx

/-- Two anchors that share no student position. -/
def Anchor.Apart (x y : Anchor) : Prop :=
  Disjoint (Finset.Ico x.i (x.i + x.k)) (Finset.Ico y.i (y.i + y.k))

/-- The anchors taken are apart, and their positions are used. -/
structure Selection.Inv (potential : List Anchor) (sel : Selection) : Prop where
  apart : sel.selected.Pairwise Anchor.Apart
  used : ∀ x ∈ sel.selected, Finset.Ico x.i (x.i + x.k) ⊆ sel.usedStudent
  mem : ∀ x ∈ sel.selected, x ∈ potential

theorem Selection.Inv.take {potential : List Anchor} {sel : Selection} (h : sel.Inv potential)
    (hx : x ∈ potential) : (sel.take x).Inv potential := by
  rw [Selection.take]
  split
  case isFalse => exact h
  case isTrue hfree =>
    constructor
    · refine List.pairwise_append.mpr ⟨h.apart, List.pairwise_singleton _ _, ?_⟩
      intro y hy z hz
      obtain rfl := List.mem_singleton.mp hz
      exact hfree.1.symm.mono_left (h.used y hy)
    · intro y hy
      rcases List.mem_append.mp hy with hy | hy
      · exact (h.used y hy).trans Finset.subset_union_left
      · obtain rfl := List.mem_singleton.mp hy
        exact Finset.subset_union_right
    · intro y hy
      rcases List.mem_append.mp hy with hy | hy
      · exact h.mem y hy
      · obtain rfl := List.mem_singleton.mp hy
        exact hx

theorem Selection.Inv.foldl {potential : List Anchor} {sel : Selection} (h : sel.Inv potential)
    (hxs : ∀ x ∈ xs, x ∈ potential) : (xs.foldl Selection.take sel).Inv potential := by
  induction xs generalizing sel with
  | nil => exact h
  | cons x xs ih =>
    rw [List.foldl_cons]
    exact ih (h.take (hxs x List.mem_cons_self)) fun y hy => hxs y (List.mem_cons_of_mem x hy)

theorem pairwise_mergeSort_earlier (xs : List Anchor) :
    (xs.mergeSort Anchor.earlier).Pairwise fun x y => x.i ≤ y.i := by
  refine (List.pairwise_mergeSort ?_ ?_ xs).imp ?_
  · intro x y z
    simp only [Anchor.earlier, decide_eq_true_eq]
    omega
  · intro x y
    simp only [Anchor.earlier, Bool.or_eq_true, decide_eq_true_eq]
    omega
  · intro x y h
    simp only [Anchor.earlier, decide_eq_true_eq] at h
    omega

/-- Of two anchors that are apart, the one that starts first ends before the other. -/
theorem Anchor.Apart.le (h : x.Apart y) (hx : x.Valid s t) (hy : y.Valid s t)
    (hle : x.i ≤ y.i) : x.i + x.k ≤ y.i := by
  by_contra hlt
  by_cases hk : y.k = 0
  · have := hy.pos hk
    have := hx.student
    omega
  · have hx : y.i ∈ Finset.Ico x.i (x.i + x.k) := Finset.mem_Ico.mpr ⟨hle, by omega⟩
    have hy : y.i ∈ Finset.Ico y.i (y.i + y.k) := Finset.mem_Ico.mpr ⟨le_rfl, by omega⟩
    exact Finset.disjoint_left.mp h hx hy

/-- The selected anchors are valid and follow each other on the student side. -/
theorem selectAnchors_spec {potential : List Anchor} (hvalid : ∀ x ∈ potential, x.Valid s t) :
    (∀ x ∈ selectAnchors potential, x.Valid s t) ∧
      (selectAnchors potential).Pairwise fun x y => x.i + x.k ≤ y.i := by
  have hinit : Selection.Inv potential {} :=
    ⟨List.Pairwise.nil, fun _ hx => (nomatch hx), fun _ hx => (nomatch hx)⟩
  have hsorted : ∀ x ∈ potential.mergeSort Anchor.preferred, x ∈ potential := by
    intro x hx
    exact List.mem_mergeSort.mp hx
  have hinv := hinit.foldl hsorted
  have hmem : ∀ x ∈ selectAnchors potential, x.Valid s t := fun x hx =>
    hvalid x (hinv.mem x (List.mem_mergeSort.mp hx))
  have hapart : (selectAnchors potential).Pairwise Anchor.Apart :=
    ((List.mergeSort_perm _ _).pairwise_iff fun h => Disjoint.symm h).mpr hinv.apart
  refine ⟨hmem, ?_⟩
  refine (hapart.and (pairwise_mergeSort_earlier _)).imp_of_mem ?_
  intro x y hx hy h
  exact h.1.le (hmem x hx) (hmem y hy) h.2

/-- Anchors that follow each other on both sides, from positions `i` and `j` on. -/
def Ordered (s t : List Token) (i j : ℕ) : List Anchor → Prop
  | [] => i ≤ s.length ∧ j ≤ t.length
  | x :: xs => i ≤ x.i ∧ j ≤ x.j ∧ Ordered s t (x.i + x.k) (x.j + x.k) xs

theorem Ordered.le {i j : ℕ} (h : Ordered s t i j xs) : i ≤ s.length ∧ j ≤ t.length := by
  induction xs generalizing i j with
  | nil => exact h
  | cons x xs ih =>
    obtain ⟨hi, hj, hrest⟩ := h
    obtain ⟨hs, ht⟩ := ih hrest
    omega

theorem validateAnchors_ordered {lastJ : ℤ} {i j : ℕ} (hvalid : ∀ x ∈ xs, x.Valid s t)
    (hxs : xs.Pairwise fun x y => x.i + x.k ≤ y.i) (hfirst : ∀ x ∈ xs, i ≤ x.i)
    (hi : i ≤ s.length) (hj : j ≤ t.length) (hlast : lastJ = j - 1) :
    Ordered s t i j (validateAnchors s t lastJ xs) := by
  induction xs generalizing lastJ i j with
  | nil => exact ⟨hi, hj⟩
  | cons x xs ih =>
    obtain ⟨hnext, hxs⟩ := List.pairwise_cons.mp hxs
    have hx := hvalid x List.mem_cons_self
    have hvalid' : ∀ y ∈ xs, y.Valid s t := fun y hy => hvalid y (List.mem_cons_of_mem x hy)
    rw [validateAnchors]
    split
    case isTrue hnew =>
      refine ⟨hfirst x List.mem_cons_self, by omega, ?_⟩
      exact ih hvalid' hxs hnext hx.student hx.teacher (by push_cast; rfl)
    case isFalse =>
      exact ih hvalid' hxs (fun y hy => hfirst y (List.mem_cons_of_mem x hy)) hi hj hlast

end Order

/-! ## The pairs -/

theorem anchorPairs_aligns {s t : List Token} {x : Anchor} (hs : x.i + x.k ≤ s.length)
    (ht : x.j + x.k ≤ t.length) :
    Aligns (slice s x.i (x.i + x.k)) (slice t x.j (x.j + x.k)) x.i x.j (anchorPairs s t x) := by
  have hsingles : ∀ (l : List Token) (i : ℕ), i + x.k ≤ l.length →
      (⟨slice l i (i + x.k), i, i + x.k⟩ : Segment Token).singles = (List.range x.k).map fun kk =>
        ⟨[l.getD (i + kk) []], (i + kk : ℕ), (i + kk + 1 : ℕ)⟩ := by
    intro l i hle
    rw [singles_eq_map_range, length_slice hle, Nat.add_sub_cancel_left]
    refine List.map_congr_left fun kk hkk => ?_
    rw [getD_slice (List.mem_range.mp hkk)]
    push_cast
    rfl
  have hstudent : (anchorPairs s t x).map AlignmentPair.student =
      (⟨slice s x.i (x.i + x.k), x.i, x.i + x.k⟩ : Segment Token).singles := by
    rw [hsingles s x.i hs, anchorPairs, List.map_map]
    rfl
  have hteacher : (anchorPairs s t x).map AlignmentPair.teacher =
      (⟨slice t x.j (x.j + x.k), x.j, x.j + x.k⟩ : Segment Token).singles := by
    rw [hsingles t x.j ht, anchorPairs, List.map_map]
    rfl
  obtain ⟨hscovers, hsitems⟩ := covers_singles ⟨slice s x.i (x.i + x.k), x.i, x.i + x.k⟩
  obtain ⟨htcovers, htitems⟩ := covers_singles ⟨slice t x.j (x.j + x.k), x.j, x.j + x.k⟩
  rw [← hstudent] at hscovers hsitems
  rw [← hteacher] at htcovers htitems
  exact ⟨hscovers, htcovers, hsitems, htitems⟩

section Segments
variable {R : Type} [Zero R] [Add R] [Neg R] [Mul R] [NatCast R] [LT R] [DecidableLT R]
variable (scoring : Scoring R) (s t : List Token)

theorem alignSegment_aligns (i i' j j' : ℕ) :
    Aligns (slice s i i') (slice t j j') i j (alignSegment scoring s t i i' j j') := by
  rw [alignSegment]
  by_cases hne : slice s i i' ≠ [] ∨ slice t j j' ≠ []
  · rw [if_pos hne]
    exact shiftPairs_aligns (alignDP_aligns scoring _ _) i j
  · rw [if_neg hne]
    push Not at hne
    rw [hne.1, hne.2]
    exact Aligns.nil _ _

/-- Aligning the segments between ordered anchors aligns all tokens that are left. -/
theorem alignSegments_aligns {xs : List Anchor} {i j : ℕ} (h : Ordered s t i j xs) :
    Aligns (s.drop i) (t.drop j) i j (alignSegments scoring s t i j xs) := by
  induction xs generalizing i j with
  | nil =>
    rw [← slice_length s i, ← slice_length t j]
    exact alignSegment_aligns scoring s t i _ j _
  | cons x xs ih =>
    obtain ⟨hi, hj, hrest⟩ := h
    obtain ⟨hsle, htle⟩ := hrest.le
    have hseg := alignSegment_aligns scoring s t i x.i j x.j
    have hanchor := anchorPairs_aligns hsle htle
    have htail := ih hrest
    rw [← slice_append_drop s hi, ← slice_append_drop t hj,
      ← slice_append_drop s (Nat.le_add_right x.i x.k),
      ← slice_append_drop t (Nat.le_add_right x.j x.k)]
    refine hseg.append ?_
    rw [length_slice (by omega), length_slice (by omega), ← Int.natCast_add, ← Int.natCast_add,
      Nat.add_sub_cancel' hi, Nat.add_sub_cancel' hj]
    refine hanchor.append ?_
    rw [length_slice hsle, length_slice htle, Nat.add_sub_cancel_left, Nat.add_sub_cancel_left,
      ← Int.natCast_add, ← Int.natCast_add]
    exact htail

end Segments

/-- The pairs hold all tokens of both sequences. -/
theorem alignWithAnchors_aligns {R : Type} [Zero R] [Add R] [Neg R] [Mul R] [NatCast R] [LT R]
    [DecidableLT R] (scoring : Scoring R) (s t : List Token) (anchorLengths : List ℕ) :
    Aligns s t 0 0 (alignWithAnchors scoring s t anchorLengths).1 := by
  have hpotential : ∀ x ∈ potentialAnchors s t anchorLengths, x.Valid s t := by
    intro x hx
    exact potentialAnchors_valid hx
  obtain ⟨hvalid, hselected⟩ := selectAnchors_spec hpotential
  have hordered : Ordered s t 0 0 (validateAnchors s t (-1)
      (selectAnchors (potentialAnchors s t anchorLengths))) :=
    validateAnchors_ordered hvalid hselected (fun x _ => Nat.zero_le x.i) (Nat.zero_le _)
      (Nat.zero_le _) rfl
  rw [alignWithAnchors]
  split
  case isTrue => exact alignDP_aligns scoring s t
  case isFalse =>
    by_cases hnone : validateAnchors s t (-1)
        (selectAnchors (potentialAnchors s t anchorLengths)) = []
    · simp only [hnone, if_true]
      exact alignDP_aligns scoring s t
    · simp only [if_neg hnone]
      exact alignSegments_aligns scoring s t hordered

end NemoRL.XToken
