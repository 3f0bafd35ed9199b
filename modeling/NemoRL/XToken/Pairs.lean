import NemoRL.XToken.Canonical

/-!
# Aligned pairs

A pair aligns a run of student tokens with a run of teacher tokens. A list of pairs is
an alignment of two token sequences when on each side the runs follow each other and
hold exactly the tokens of the sequence.

## Main definitions

* `AlignmentPair` — an aligned span of both sequences.
* `Aligns` — pairs that follow each other and hold given tokens.
* `AlignmentPair.shift`, `AlignmentPair.splitTokens` — moving a pair, splitting it into tokens.

## Main results

* `Aligns.append`, `Aligns.split` — alignments compose and decompose.
* `Aligns.shift`, `Aligns.refine` — moving the pairs, splitting each of them.
-/

namespace NemoRL.XToken

open Lib

/-- One aligned span. A side without tokens has the positions `-1`. -/
structure AlignmentPair where
  sTokens : List Token
  tTokens : List Token
  sStart : ℤ
  sEnd : ℤ
  tStart : ℤ
  tEnd : ℤ
  isCorrect : Bool := false
  deriving DecidableEq, Repr

/-- The student side of a pair. -/
def AlignmentPair.student (pair : AlignmentPair) : Segment Token :=
  ⟨pair.sTokens, pair.sStart, pair.sEnd⟩

/-- The teacher side of a pair. -/
def AlignmentPair.teacher (pair : AlignmentPair) : Segment Token :=
  ⟨pair.tTokens, pair.tStart, pair.tEnd⟩

/-- The student spans of the pairs that have one. -/
def studentSpans (pairs : List AlignmentPair) : List (ℤ × ℤ) :=
  spansOf (pairs.map AlignmentPair.student)

/-- The teacher spans of the pairs that have one. -/
def teacherSpans (pairs : List AlignmentPair) : List (ℤ × ℤ) :=
  spansOf (pairs.map AlignmentPair.teacher)

/-- The pairs hold the tokens `s` from position `a` on and `t` from position `b` on. -/
structure Aligns (s t : List Token) (a b : ℤ) (pairs : List AlignmentPair) : Prop where
  student : Covers a (pairs.map AlignmentPair.student)
  teacher : Covers b (pairs.map AlignmentPair.teacher)
  sTokens : itemsOf (pairs.map AlignmentPair.student) = s
  tTokens : itemsOf (pairs.map AlignmentPair.teacher) = t

variable {s t s' t' : List Token} {a b : ℤ} {pairs pairs' : List AlignmentPair}
  {pair : AlignmentPair}

theorem Aligns.nil (a b : ℤ) : Aligns [] [] a b [] := ⟨trivial, trivial, rfl, rfl⟩

theorem Aligns.append (h : Aligns s t a b pairs)
    (h' : Aligns s' t' (a + s.length) (b + t.length) pairs') :
    Aligns (s ++ s') (t ++ t') a b (pairs ++ pairs') := by
  constructor
  · rw [List.map_append, covers_append, h.sTokens]
    exact ⟨h.student, h'.student⟩
  · rw [List.map_append, covers_append, h.tTokens]
    exact ⟨h.teacher, h'.teacher⟩
  · rw [List.map_append, itemsOf_append, h.sTokens, h'.sTokens]
  · rw [List.map_append, itemsOf_append, h.tTokens, h'.tTokens]

theorem Aligns.single (hs : pair.student.Sits a) (ht : pair.teacher.Sits b) :
    Aligns pair.sTokens pair.tTokens a b [pair] :=
  ⟨covers_singleton.mpr hs, covers_singleton.mpr ht, List.append_nil _, List.append_nil _⟩

/-- The tokens and positions of a pair. -/
theorem aligns_singleton : Aligns s t a b [pair] ↔
    pair.student.Sits a ∧ pair.teacher.Sits b ∧ s = pair.sTokens ∧ t = pair.tTokens := by
  constructor
  · intro h
    refine ⟨h.student.1, h.teacher.1, ?_, ?_⟩
    · exact h.sTokens.symm.trans (List.append_nil _)
    · exact h.tTokens.symm.trans (List.append_nil _)
  · rintro ⟨hs, ht, rfl, rfl⟩
    exact Aligns.single hs ht

/-- The parts of an alignment are alignments. -/
theorem Aligns.split (h : Aligns s t a b (pairs ++ pairs')) :
    ∃ s₁ s₂ t₁ t₂, s = s₁ ++ s₂ ∧ t = t₁ ++ t₂ ∧ Aligns s₁ t₁ a b pairs ∧
      Aligns s₂ t₂ (a + s₁.length) (b + t₁.length) pairs' := by
  have hstudent := h.student
  have hteacher := h.teacher
  rw [List.map_append, covers_append] at hstudent hteacher
  refine ⟨itemsOf (pairs.map AlignmentPair.student), itemsOf (pairs'.map AlignmentPair.student),
    itemsOf (pairs.map AlignmentPair.teacher), itemsOf (pairs'.map AlignmentPair.teacher),
    ?_, ?_, ⟨hstudent.1, hteacher.1, rfl, rfl⟩, ⟨hstudent.2, hteacher.2, rfl, rfl⟩⟩
  · rw [← h.sTokens, List.map_append, itemsOf_append]
  · rw [← h.tTokens, List.map_append, itemsOf_append]

theorem Aligns.cons_iff :
    Aligns s t a b (pair :: pairs) ↔ pair.student.Sits a ∧ pair.teacher.Sits b ∧
      ∃ s' t', s = pair.sTokens ++ s' ∧ t = pair.tTokens ++ t' ∧
        Aligns s' t' (a + pair.sTokens.length) (b + pair.tTokens.length) pairs := by
  constructor
  · intro h
    exact ⟨h.student.1, h.teacher.1, _, _, h.sTokens.symm, h.tTokens.symm,
      ⟨h.student.2, h.teacher.2, rfl, rfl⟩⟩
  · rintro ⟨hs, ht, s', t', rfl, rfl, h⟩
    exact (Aligns.single hs ht).append h

/-! ## Moving -/

/-- Move the sides of a pair that have positions. -/
def AlignmentPair.shift (shiftS shiftT : ℤ) (pair : AlignmentPair) : AlignmentPair where
  sTokens := pair.sTokens
  tTokens := pair.tTokens
  sStart := if pair.sStart ≠ -1 then pair.sStart + shiftS else -1
  sEnd := if pair.sEnd ≠ -1 then pair.sEnd + shiftS else -1
  tStart := if pair.tStart ≠ -1 then pair.tStart + shiftT else -1
  tEnd := if pair.tEnd ≠ -1 then pair.tEnd + shiftT else -1

theorem Aligns.shift (h : Aligns s t a b pairs) (ha : 0 ≤ a) (hb : 0 ≤ b) (c d : ℤ) :
    Aligns s t (a + c) (b + d) (pairs.map (AlignmentPair.shift c d)) := by
  have hstudent : (pairs.map (AlignmentPair.shift c d)).map AlignmentPair.student =
      (pairs.map AlignmentPair.student).map (Segment.shift c) := by
    rw [List.map_map, List.map_map]
    rfl
  have hteacher : (pairs.map (AlignmentPair.shift c d)).map AlignmentPair.teacher =
      (pairs.map AlignmentPair.teacher).map (Segment.shift d) := by
    rw [List.map_map, List.map_map]
    rfl
  constructor
  · rw [hstudent]
    exact covers_shift ha h.student c
  · rw [hteacher]
    exact covers_shift hb h.teacher d
  · rw [hstudent, itemsOf_shift, h.sTokens]
  · rw [hteacher, itemsOf_shift, h.tTokens]

/-- Moving an alignment of the tokens of a pair to where the pair starts. A side without
tokens has no start, and is aligned from any position. -/
theorem Aligns.shift_start (h : Aligns pair.sTokens pair.tTokens 0 0 pairs)
    (hs : pair.student.Sits a) (ht : pair.teacher.Sits b) :
    Aligns pair.sTokens pair.tTokens a b
      (pairs.map (AlignmentPair.shift pair.sStart pair.tStart)) := by
  have hshift := h.shift le_rfl le_rfl pair.sStart pair.tStart
  rw [zero_add, zero_add] at hshift
  refine ⟨?_, ?_, hshift.sTokens, hshift.tTokens⟩
  · by_cases hnil : pair.sTokens = []
    · exact hshift.student.of_items_nil (hshift.sTokens.trans hnil) a
    · exact (hs.of_ne_nil hnil).1 ▸ hshift.student
  · by_cases hnil : pair.tTokens = []
    · exact hshift.teacher.of_items_nil (hshift.tTokens.trans hnil) b
    · exact (ht.of_ne_nil hnil).1 ▸ hshift.teacher

/-! ## Splitting -/

/-- A pair of several tokens that are the same on both sides. -/
def AlignmentPair.isCoarse (pair : AlignmentPair) : Prop :=
  1 < pair.sTokens.length ∧ pair.sTokens.length = pair.tTokens.length ∧
    pair.sTokens = pair.tTokens

instance (pair : AlignmentPair) : Decidable pair.isCoarse :=
  inferInstanceAs (Decidable (_ ∧ _ ∧ _))

/-- A pair for each token. -/
def AlignmentPair.splitTokens (pair : AlignmentPair) : List AlignmentPair :=
  (List.range pair.sTokens.length).map fun k =>
    { sTokens := [pair.sTokens.getD k []]
      tTokens := [pair.tTokens.getD k []]
      sStart := pair.sStart + k
      sEnd := pair.sStart + k + 1
      tStart := pair.tStart + k
      tEnd := pair.tStart + k + 1 }

/-- The segments of single items, listed by position. -/
theorem singles_eq_map_range (x : Segment Token) :
    x.singles = (List.range x.items.length).map fun k =>
      ⟨[x.items.getD k []], x.start + k, x.start + k + 1⟩ := by
  refine List.ext_getElem (by simp [Segment.singles]) fun k hk _ => ?_
  have hk' : k < x.items.length := by simpa [Segment.singles] using hk
  simp [Segment.singles, List.getD_eq_getElem?_getD, List.getElem?_eq_getElem hk']

theorem AlignmentPair.isCoarse.splitTokens_aligns (h : pair.isCoarse)
    (hs : pair.student.Sits a) (ht : pair.teacher.Sits b) :
    Aligns pair.sTokens pair.tTokens a b pair.splitTokens := by
  obtain ⟨hlong, hlen, -⟩ := h
  have hstudent : pair.splitTokens.map AlignmentPair.student = pair.student.singles := by
    rw [singles_eq_map_range, AlignmentPair.splitTokens, List.map_map]
    rfl
  have hteacher : pair.splitTokens.map AlignmentPair.teacher = pair.teacher.singles := by
    rw [singles_eq_map_range, AlignmentPair.splitTokens, List.map_map, hlen]
    rfl
  obtain ⟨hs', hsItems⟩ := covers_singles pair.student
  obtain ⟨ht', htItems⟩ := covers_singles pair.teacher
  have hsStart := (hs.of_ne_nil (List.length_pos_iff.mp (by simp only [student]; omega))).1
  have htStart := (ht.of_ne_nil (List.length_pos_iff.mp (by simp only [teacher]; omega))).1
  rw [← hstudent] at hs' hsItems
  rw [← hteacher] at ht' htItems
  exact ⟨hsStart ▸ hs', htStart ▸ ht', hsItems, htItems⟩

/-- Replacing each pair by pairs for the same tokens. -/
theorem Aligns.refine (h : Aligns s t a b pairs) {f : AlignmentPair → List AlignmentPair}
    (hf : ∀ pair a b, pair.student.Sits a → pair.teacher.Sits b →
      Aligns pair.sTokens pair.tTokens a b (f pair)) :
    Aligns s t a b (pairs.flatMap f) := by
  induction pairs generalizing s t a b with
  | nil => exact h
  | cons pair pairs ih =>
    obtain ⟨hs, ht, s', t', rfl, rfl, hrest⟩ := Aligns.cons_iff.mp h
    exact (hf pair a b hs ht).append (ih hrest)

end NemoRL.XToken
