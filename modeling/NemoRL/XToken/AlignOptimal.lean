import Mathlib.Algebra.Order.Ring.Rat
import NemoRL.XToken.AlignDP

/-!
# The kernel is optimal

The moves of the kernel are the steps of a graph on the cells of its table. An alignment is a path
of steps from the first cell, and its score is the sum of the scores of its pairs. The score of a
cell is that of a best alignment of the tokens before it, and the trace is such an alignment.

## Main definitions

* `pairScore` — the score of a pair.
* `AlignStep`, `Alignment` — the moves, and the alignments built from them.
* `traceStop` — the cell in which following the trace stops.

## Main results

* `alignDP_optimal` — the score of the last cell is the best one, and that of the traced pairs.
-/

namespace NemoRL.XToken

open Lib

/-! ## Alignments -/

section Alignment
variable {R : Type} [Zero R] [Neg R] [Mul R] [NatCast R]
variable (scoring : Scoring R) (studentTokens teacherTokens : List Token)

/-- The score of a pair: a match or mismatch, a gap, or a combination. -/
def pairScore (pair : AlignmentPair) : R :=
  match pair.sTokens, pair.tTokens with
  | [s], [t] =>
    if stringsEqualFlexible s t scoring.ignoreLeadingCharDiff then scoring.exactMatchScore
    else -scoring.exactMatchScore
  | [_], [] => scoring.gapPenalty
  | [], [_] => scoring.gapPenalty
  | [_], ts => scoring.combinationScoreMultiplier * ts.length
  | ss, [_] => scoring.combinationScoreMultiplier * ss.length
  | _, _ => 0

/-- A pair that is added to an alignment of the tokens before a cell. -/
inductive AlignStep : ℕ × ℕ → AlignmentPair → ℕ × ℕ → Prop
  | diag {i j : ℕ} (hi : i < studentTokens.length) (hj : j < teacherTokens.length) :
    AlignStep (i, j) ⟨[studentTokens.getD i []], [teacherTokens.getD j []],
      i, (i + 1 : ℕ), j, (j + 1 : ℕ), false⟩ (i + 1, j + 1)
  | up {i j : ℕ} (hi : i < studentTokens.length) (hj : j ≤ teacherTokens.length) :
    AlignStep (i, j) ⟨[studentTokens.getD i []], [], i, (i + 1 : ℕ), -1, -1, false⟩ (i + 1, j)
  | left {i j : ℕ} (hi : i ≤ studentTokens.length) (hj : j < teacherTokens.length) :
    AlignStep (i, j) ⟨[], [teacherTokens.getD j []], -1, -1, j, (j + 1 : ℕ), false⟩ (i, j + 1)
  | combS1OverS2 {i j k : ℕ} (hi : i < studentTokens.length) (hk : 2 ≤ k)
    (hmax : k ≤ scoring.maxCombinationLen) (hj : j + k ≤ teacherTokens.length)
    (heq : stringsEqualFlexible (studentTokens.getD i [])
      (slice teacherTokens j (j + k)).flatten scoring.ignoreLeadingCharDiff) :
    AlignStep (i, j) ⟨[studentTokens.getD i []], slice teacherTokens j (j + k),
      i, (i + 1 : ℕ), j, (j + k : ℕ), false⟩ (i + 1, j + k)
  | combS2OverS1 {i j k : ℕ} (hj : j < teacherTokens.length) (hk : 2 ≤ k)
    (hmax : k ≤ scoring.maxCombinationLen) (hi : i + k ≤ studentTokens.length)
    (heq : stringsEqualFlexible (teacherTokens.getD j [])
      (slice studentTokens i (i + k)).flatten scoring.ignoreLeadingCharDiff) :
    AlignStep (i, j) ⟨slice studentTokens i (i + k), [teacherTokens.getD j []],
      i, (i + k : ℕ), j, (j + 1 : ℕ), false⟩ (i + k, j + 1)

/-- The alignments of the tokens before a cell. -/
def Alignment (pairs : List AlignmentPair) (v : ℕ × ℕ) : Prop :=
  Path (AlignStep scoring studentTokens teacherTokens) (0, 0) pairs v

variable {scoring studentTokens teacherTokens}

omit [Zero R] [Neg R] [Mul R] [NatCast R] in
/-- A step stays inside the table and comes from an earlier cell. -/
theorem AlignStep.bounds {v w : ℕ × ℕ} {pair : AlignmentPair}
    (h : AlignStep scoring studentTokens teacherTokens v pair w) :
    w.1 ≤ studentTokens.length ∧ w.2 ≤ teacherTokens.length ∧ v.1 ≤ w.1 ∧ v.2 ≤ w.2 ∧
      v.1 + v.2 < w.1 + w.2 := by
  cases h with
  | diag hi hj => dsimp only; omega
  | up hi hj => dsimp only; omega
  | left hi hj => dsimp only; omega
  | combS1OverS2 hi hk hmax hj heq => dsimp only; omega
  | combS2OverS1 hj hk hmax hi heq => dsimp only; omega

theorem pairScore_combS1OverS2 {pair : AlignmentPair} {s : Token} {k : ℕ}
    (hs : pair.sTokens = [s]) (ht : pair.tTokens.length = k) (hk : 2 ≤ k) :
    pairScore scoring pair = scoring.combinationScoreMultiplier * k := by
  obtain ⟨x, y, rest, hts⟩ : ∃ x y rest, pair.tTokens = x :: y :: rest := by
    match hts : pair.tTokens with
    | [] => simp [hts] at ht; omega
    | [_] => simp [hts] at ht; omega
    | x :: y :: rest => exact ⟨x, y, rest, rfl⟩
  rw [← ht]
  simp only [pairScore, hs, hts]

theorem pairScore_combS2OverS1 {pair : AlignmentPair} {t : Token} {k : ℕ}
    (ht : pair.tTokens = [t]) (hs : pair.sTokens.length = k) (hk : 2 ≤ k) :
    pairScore scoring pair = scoring.combinationScoreMultiplier * k := by
  obtain ⟨x, y, rest, hss⟩ : ∃ x y rest, pair.sTokens = x :: y :: rest := by
    match hss : pair.sTokens with
    | [] => simp [hss] at hs; omega
    | [_] => simp [hss] at hs; omega
    | x :: y :: rest => exact ⟨x, y, rest, rfl⟩
  rw [← hs]
  simp only [pairScore, ht, hss]

end Alignment

/-! ## The moves -/

/-- The cell a move comes from. -/
def Move.source (i j : ℕ) : Move → ℕ × ℕ
  | .none => (i, j)
  | .diag => (i - 1, j - 1)
  | .up => (i - 1, j)
  | .left => (i, j - 1)
  | .combS1OverS2 k => (i - 1, j - k)
  | .combS2OverS1 k => (i - k, j - 1)

/-- The pair of a move. -/
def Move.pair (studentTokens teacherTokens : List Token) (i j : ℕ) : Move → AlignmentPair
  | .none => ⟨[], [], -1, -1, -1, -1, false⟩
  | .diag => ⟨[studentTokens.getD (i - 1) []], [teacherTokens.getD (j - 1) []],
      (i - 1 : ℕ), i, (j - 1 : ℕ), j, false⟩
  | .up => ⟨[studentTokens.getD (i - 1) []], [], (i - 1 : ℕ), i, -1, -1, false⟩
  | .left => ⟨[], [teacherTokens.getD (j - 1) []], -1, -1, (j - 1 : ℕ), j, false⟩
  | .combS1OverS2 k => ⟨[studentTokens.getD (i - 1) []], slice teacherTokens (j - k) j,
      (i - 1 : ℕ), i, (j - k : ℕ), j, false⟩
  | .combS2OverS1 k => ⟨slice studentTokens (i - k) i, [teacherTokens.getD (j - 1) []],
      (i - k : ℕ), i, (j - 1 : ℕ), j, false⟩

/-- The cell in which following the trace stops. -/
def traceStop (trace : ℕ → ℕ → Move) : ℕ → ℕ → ℕ → ℕ × ℕ
  | 0, i, j => (i, j)
  | fuel + 1, i, j =>
    if i = 0 ∧ j = 0 then (i, j)
    else if trace i j = .none then (i, j)
    else traceStop trace fuel ((trace i j).source i j).1 ((trace i j).source i j).2

/-- Following the trace by one move. -/
theorem traceback_succ {studentTokens teacherTokens : List Token} {trace : ℕ → ℕ → Move}
    {fuel i j : ℕ} (hcell : ¬ (i = 0 ∧ j = 0)) (hmove : trace i j ≠ .none) :
    traceback studentTokens teacherTokens trace (fuel + 1) i j =
      (trace i j).pair studentTokens teacherTokens i j ::
        traceback studentTokens teacherTokens trace fuel ((trace i j).source i j).1
          ((trace i j).source i j).2 := by
  rw [traceback, if_neg hcell]
  cases h : trace i j with
  | none => exact absurd h hmove
  | diag => rfl
  | up => rfl
  | left => rfl
  | combS1OverS2 k => rfl
  | combS2OverS1 k => rfl

/-! ## The table -/

section Table
variable {R : Type} [Zero R] [Add R] [Neg R] [Mul R] [NatCast R] [LT R] [DecidableLT R]
variable (scoring : Scoring R) (studentTokens teacherTokens : List Token)

/-- A cell of the full table. -/
def tableCell (i j : ℕ) : R × Move :=
  ((fillTable scoring studentTokens teacherTokens).getD i []).getD j (0, .none)

variable {scoring studentTokens teacherTokens}

omit [Zero R] in
/-- The best move depends only on the scores of the cells before it. -/
theorem bestMove_congr {dp dp' : ℕ → ℕ → R} {i j : ℕ} (hi : 0 < i) (hj : 0 < j)
    (h : ∀ i' j', i' < i ∧ j' ≤ j ∨ i' = i ∧ j' < j → dp i' j' = dp' i' j') :
    bestMove scoring studentTokens teacherTokens dp i j =
      bestMove scoring studentTokens teacherTokens dp' i j := by
  have hdiag : dp (i - 1) (j - 1) = dp' (i - 1) (j - 1) := h _ _ (Or.inl (by omega))
  have hup : dp (i - 1) j = dp' (i - 1) j := h _ _ (Or.inl (by omega))
  have hleft : dp i (j - 1) = dp' i (j - 1) := h _ _ (Or.inr (by omega))
  have hcomb₁ : ∀ k, dp (i - 1) (j - k) = dp' (i - 1) (j - k) :=
    fun k => h _ _ (Or.inl (by omega))
  simp only [bestMove, hdiag, hup, hleft, hcomb₁]
  refine List.foldl_ext _ _ _ fun best k hk => ?_
  rw [List.mem_range'_1] at hk
  rw [h (i - k) (j - 1) (Or.inl (by omega))]

/-- A cell is computed from the scores of the cells before it. -/
theorem tableCell_eq {i j : ℕ} (hi : i ≤ studentTokens.length) (hj : j ≤ teacherTokens.length) :
    tableCell scoring studentTokens teacherTokens i j =
      if i = 0 then
        if j = 0 then (0, .none)
        else ((tableCell scoring studentTokens teacherTokens 0 (j - 1)).1 + scoring.gapPenalty,
          .left)
      else if j = 0 then
        ((tableCell scoring studentTokens teacherTokens (i - 1) 0).1 + scoring.gapPenalty, .up)
      else bestMove scoring studentTokens teacherTokens
        (fun i j => (tableCell scoring studentTokens teacherTokens i j).1) i j := by
  have hrow : (fillTable scoring studentTokens teacherTokens).getD i [] =
      fillRow scoring studentTokens teacherTokens
        (build (fillRow scoring studentTokens teacherTokens) i) i :=
    getD_build_eq _ (Nat.lt_succ_of_le hi) []
  -- The cells above are in the rows built before, those to the left in the row built so far.
  have habove : ∀ i' < i, (build (fillRow scoring studentTokens teacherTokens) i).getD i' [] =
      (fillTable scoring studentTokens teacherTokens).getD i' [] :=
    fun i' hi' => (getD_build_of_lt _ hi' (by omega) []).symm
  have hleft : ∀ j' < j, (build (cell scoring studentTokens teacherTokens
      (build (fillRow scoring studentTokens teacherTokens) i) · i ·) j).getD j' (0, Move.none) =
      tableCell scoring studentTokens teacherTokens i j' := by
    intro j' hj'
    rw [tableCell, hrow]
    exact (getD_build_of_lt _ hj' (by omega) (0, Move.none)).symm
  have hcell : tableCell scoring studentTokens teacherTokens i j =
      cell scoring studentTokens teacherTokens
        (build (fillRow scoring studentTokens teacherTokens) i)
        (build (cell scoring studentTokens teacherTokens
          (build (fillRow scoring studentTokens teacherTokens) i) · i ·) j) i j := by
    rw [tableCell, hrow]
    exact getD_build_eq _ (Nat.lt_succ_of_le hj) (0, Move.none)
  rw [hcell, cell]
  rcases Nat.eq_zero_or_pos i with rfl | hipos
  · rcases Nat.eq_zero_or_pos j with rfl | hjpos
    · rfl
    · simp only [if_true, hjpos.ne', if_false, hleft (j - 1) (by omega)]
  · rcases Nat.eq_zero_or_pos j with rfl | hjpos
    · have hne : i - 1 ≠ i := by omega
      simp only [hipos.ne', hne, if_true, if_false, habove (i - 1) (by omega)]
      rfl
    · simp only [hipos.ne', hjpos.ne', if_false]
      refine bestMove_congr hipos hjpos fun i' j' hbefore => ?_
      rcases hbefore with ⟨hi', hj'⟩ | ⟨rfl, hj'⟩
      · rw [if_neg hi'.ne, habove i' hi']
        rfl
      · rw [if_pos rfl, hleft j' hj']

end Table

/-! ## The best move -/

section Best
variable {R : Type} [CommRing R] [LinearOrder R]
variable {scoring : Scoring R} {studentTokens teacherTokens : List Token}

/-- The best of the moves by single tokens. -/
def bestSingle (scoring : Scoring R) (studentTokens teacherTokens : List Token) (dp : ℕ → ℕ → R)
    (i j : ℕ) : R × Move :=
  let matchScore :=
    if stringsEqualFlexible (studentTokens.getD (i - 1) []) (teacherTokens.getD (j - 1) [])
      scoring.ignoreLeadingCharDiff then scoring.exactMatchScore else -scoring.exactMatchScore
  let best : R × Move := (dp (i - 1) (j - 1) + matchScore, .diag)
  let best := if best.1 < dp (i - 1) j + scoring.gapPenalty
    then (dp (i - 1) j + scoring.gapPenalty, .up) else best
  if best.1 < dp i (j - 1) + scoring.gapPenalty
    then (dp i (j - 1) + scoring.gapPenalty, .left) else best

/-- The best move is kept among those by single tokens and the combinations. -/
theorem bestMove_eq (dp : ℕ → ℕ → R) (i j : ℕ) :
    bestMove scoring studentTokens teacherTokens dp i j =
      keepBest (fun k => stringsEqualFlexible (teacherTokens.getD (j - 1) [])
          (slice studentTokens (i - k) i).flatten scoring.ignoreLeadingCharDiff)
        (fun k => dp (i - k) (j - 1) + scoring.combinationScoreMultiplier * k) .combS2OverS1
        (keepBest (fun k => stringsEqualFlexible (studentTokens.getD (i - 1) [])
            (slice teacherTokens (j - k) j).flatten scoring.ignoreLeadingCharDiff)
          (fun k => dp (i - 1) (j - k) + scoring.combinationScoreMultiplier * k) .combS1OverS2
          (bestSingle scoring studentTokens teacherTokens dp i j)
          (List.range' 2 (min j scoring.maxCombinationLen - 1)))
        (List.range' 2 (min i scoring.maxCombinationLen - 1)) := rfl

omit [CommRing R] in
/-- A choice that is at least as good as both. -/
theorem le_ite_better (best new : R × Move) :
    best.1 ≤ (if best.1 < new.1 then new else best).1 ∧
      new.1 ≤ (if best.1 < new.1 then new else best).1 := by
  split
  · next h => exact ⟨h.le, le_rfl⟩
  · next h => exact ⟨le_rfl, not_lt.mp h⟩

variable (scoring studentTokens teacherTokens) in
/-- No move by single tokens is better than the one that is kept. -/
theorem le_bestSingle (dp : ℕ → ℕ → R) (i j : ℕ) :
    dp (i - 1) (j - 1) + (if stringsEqualFlexible (studentTokens.getD (i - 1) [])
        (teacherTokens.getD (j - 1) []) scoring.ignoreLeadingCharDiff
        then scoring.exactMatchScore else -scoring.exactMatchScore) ≤
          (bestSingle scoring studentTokens teacherTokens dp i j).1 ∧
      dp (i - 1) j + scoring.gapPenalty ≤
        (bestSingle scoring studentTokens teacherTokens dp i j).1 ∧
      dp i (j - 1) + scoring.gapPenalty ≤
        (bestSingle scoring studentTokens teacherTokens dp i j).1 := by
  simp only [bestSingle]
  refine ⟨?_, ?_, (le_ite_better _ (_, .left)).2⟩
  · exact (le_ite_better (_, .diag) (_, .up)).1.trans (le_ite_better _ (_, .left)).1
  · exact (le_ite_better (_, .diag) (_, .up)).2.trans (le_ite_better _ (_, .left)).1

/-- What a move must be to be a step into a cell with a score. -/
def Move.Attains (scoring : Scoring R) (studentTokens teacherTokens : List Token)
    (dp : ℕ → ℕ → R) (i j : ℕ) (best : R × Move) : Prop :=
  best.2 ≠ .none ∧
    AlignStep scoring studentTokens teacherTokens (best.2.source i j)
      (best.2.pair studentTokens teacherTokens i j) (i, j) ∧
    dp (best.2.source i j).1 (best.2.source i j).2 +
      pairScore scoring (best.2.pair studentTokens teacherTokens i j) = best.1

theorem bestSingle_attains (dp : ℕ → ℕ → R) {i j : ℕ} (hi : i < studentTokens.length)
    (hj : j < teacherTokens.length) :
    Move.Attains scoring studentTokens teacherTokens dp (i + 1) (j + 1)
      (bestSingle scoring studentTokens teacherTokens dp (i + 1) (j + 1)) := by
  have hite : ∀ {c : Prop} [Decidable c] {x y : R × Move},
      Move.Attains scoring studentTokens teacherTokens dp (i + 1) (j + 1) x →
      Move.Attains scoring studentTokens teacherTokens dp (i + 1) (j + 1) y →
      Move.Attains scoring studentTokens teacherTokens dp (i + 1) (j + 1) (if c then x else y) := by
    intro c _ x y hx hy
    split
    · exact hx
    · exact hy
  simp only [bestSingle]
  refine hite ?_ (hite ?_ ?_)
  · exact ⟨by simp, AlignStep.left hi hj, rfl⟩
  · exact ⟨by simp, AlignStep.up hi hj, rfl⟩
  · exact ⟨by simp, AlignStep.diag hi hj, rfl⟩

omit [LinearOrder R] in
theorem attains_combS1OverS2 (dp : ℕ → ℕ → R) {i j k : ℕ} (hi : i < studentTokens.length)
    (hk : 2 ≤ k) (hmax : k ≤ scoring.maxCombinationLen) (hj : j + k ≤ teacherTokens.length)
    (heq : stringsEqualFlexible (studentTokens.getD i [])
      (slice teacherTokens j (j + k)).flatten scoring.ignoreLeadingCharDiff) :
    Move.Attains scoring studentTokens teacherTokens dp (i + 1) (j + k)
      (dp i j + scoring.combinationScoreMultiplier * k, .combS1OverS2 k) := by
  refine ⟨by simp, ?_, ?_⟩
  · simp only [Move.source, Move.pair, Nat.add_sub_cancel]
    exact AlignStep.combS1OverS2 hi hk hmax hj heq
  · simp only [Move.source, Move.pair, Nat.add_sub_cancel]
    rw [pairScore_combS1OverS2 rfl (by simp [slice]; omega) hk]

omit [LinearOrder R] in
theorem attains_combS2OverS1 (dp : ℕ → ℕ → R) {i j k : ℕ} (hj : j < teacherTokens.length)
    (hk : 2 ≤ k) (hmax : k ≤ scoring.maxCombinationLen) (hi : i + k ≤ studentTokens.length)
    (heq : stringsEqualFlexible (teacherTokens.getD j [])
      (slice studentTokens i (i + k)).flatten scoring.ignoreLeadingCharDiff) :
    Move.Attains scoring studentTokens teacherTokens dp (i + k) (j + 1)
      (dp i j + scoring.combinationScoreMultiplier * k, .combS2OverS1 k) := by
  refine ⟨by simp, ?_, ?_⟩
  · simp only [Move.source, Move.pair, Nat.add_sub_cancel]
    exact AlignStep.combS2OverS1 hj hk hmax hi heq
  · simp only [Move.source, Move.pair, Nat.add_sub_cancel]
    rw [pairScore_combS2OverS1 rfl (by simp [slice]; omega) hk]

/-- The best move is a step that has the best score. -/
theorem bestMove_attains (dp : ℕ → ℕ → R) {i j : ℕ} (hi : i < studentTokens.length)
    (hj : j < teacherTokens.length) :
    Move.Attains scoring studentTokens teacherTokens dp (i + 1) (j + 1)
      (bestMove scoring studentTokens teacherTokens dp (i + 1) (j + 1)) := by
  rw [bestMove_eq]
  refine keepBest_induction (keepBest_induction (bestSingle_attains dp hi hj) ?_) ?_
  · intro k hk hequal
    rw [List.mem_range'_1] at hk
    obtain ⟨j', hj'⟩ : ∃ j', j + 1 = j' + k := ⟨j + 1 - k, by omega⟩
    rw [hj', Nat.add_sub_cancel, Nat.add_sub_cancel] at hequal ⊢
    exact attains_combS1OverS2 dp hi hk.1 (by omega) (by omega) hequal
  · intro k hk hequal
    rw [List.mem_range'_1] at hk
    obtain ⟨i', hi'⟩ : ∃ i', i + 1 = i' + k := ⟨i + 1 - k, by omega⟩
    rw [hi', Nat.add_sub_cancel, Nat.add_sub_cancel] at hequal ⊢
    exact attains_combS2OverS1 dp hj hk.1 (by omega) (by omega) hequal

/-- No step into a cell is better than the best move. -/
theorem le_bestMove (dp : ℕ → ℕ → R) {i j : ℕ} {v : ℕ × ℕ} {pair : AlignmentPair}
    (h : AlignStep scoring studentTokens teacherTokens v pair (i + 1, j + 1)) :
    dp v.1 v.2 + pairScore scoring pair ≤
      (bestMove scoring studentTokens teacherTokens dp (i + 1) (j + 1)).1 := by
  have hsingle := le_bestSingle scoring studentTokens teacherTokens dp (i + 1) (j + 1)
  rw [bestMove_eq]
  generalize hw : (i + 1, j + 1) = w at h
  cases h with
  | diag hi hj =>
    obtain ⟨rfl, rfl⟩ : i = _ ∧ j = _ := by simpa using hw
    exact hsingle.1.trans ((le_keepBest _ _).trans (le_keepBest _ _))
  | up hi hj =>
    obtain ⟨rfl, rfl⟩ : i = _ ∧ j + 1 = _ := by simpa using hw
    exact hsingle.2.1.trans ((le_keepBest _ _).trans (le_keepBest _ _))
  | left hi hj =>
    obtain ⟨rfl, rfl⟩ : i + 1 = _ ∧ j = _ := by simpa using hw
    exact hsingle.2.2.trans ((le_keepBest _ _).trans (le_keepBest _ _))
  | @combS1OverS2 i' j' k hi hk hmax hj heq =>
    obtain ⟨rfl, hjk⟩ : i = i' ∧ j + 1 = j' + k := by simpa using hw
    have hj' : j + 1 - k = j' := by omega
    have hmem : k ∈ List.range' 2 (min (j + 1) scoring.maxCombinationLen - 1) := by
      rw [List.mem_range'_1]
      omega
    rw [pairScore_combS1OverS2 rfl (by simp [slice]; omega) hk]
    refine le_trans (le_of_eq ?_) ((cand_le_keepBest _ hmem ?_).trans (le_keepBest _ _))
    · simp only [Nat.add_sub_cancel, hj']
    · simpa only [Nat.add_sub_cancel, hj', hjk] using heq
  | @combS2OverS1 i' j' k hj hk hmax hi heq =>
    obtain ⟨hik, rfl⟩ : i + 1 = i' + k ∧ j = j' := by simpa using hw
    have hi' : i + 1 - k = i' := by omega
    have hmem : k ∈ List.range' 2 (min (i + 1) scoring.maxCombinationLen - 1) := by
      rw [List.mem_range'_1]
      omega
    rw [pairScore_combS2OverS1 rfl (by simp [slice]; omega) hk]
    refine le_trans (le_of_eq ?_) (cand_le_keepBest _ hmem ?_)
    · simp only [Nat.add_sub_cancel, hi']
    · simpa only [Nat.add_sub_cancel, hi', hik] using heq

end Best

/-! ## The whole table -/

section Optimal
variable {R : Type} [CommRing R] [LinearOrder R]
variable {scoring : Scoring R} {studentTokens teacherTokens : List Token}

/-- No step exceeds the score of the cell it leads to. -/
theorem tableCell_step {v w : ℕ × ℕ} {pair : AlignmentPair}
    (h : AlignStep scoring studentTokens teacherTokens v pair w) :
    (tableCell scoring studentTokens teacherTokens v.1 v.2).1 + pairScore scoring pair ≤
      (tableCell scoring studentTokens teacherTokens w.1 w.2).1 := by
  obtain ⟨hi, hj, -⟩ := h.bounds
  rw [tableCell_eq hi hj]
  obtain ⟨i, j⟩ := w
  cases i with
  | zero =>
    -- Only a gap leads to a cell of the first row.
    generalize hw : (0, j) = w at h
    cases h with
    | diag _ _ => simp at hw
    | up _ _ => simp at hw
    | left _ _ =>
      obtain ⟨rfl, rfl⟩ : 0 = _ ∧ j = _ := by simpa using hw
      exact le_rfl
    | combS1OverS2 _ _ _ _ _ => simp at hw
    | combS2OverS1 _ hk _ _ _ =>
      simp only [Prod.mk.injEq] at hw
      omega
  | succ i =>
    cases j with
    | zero =>
      generalize hw : (i + 1, 0) = w at h
      cases h with
      | diag _ _ => simp at hw
      | up _ _ =>
        obtain ⟨rfl, rfl⟩ : i = _ ∧ 0 = _ := by simpa using hw
        exact le_rfl
      | left _ _ => simp at hw
      | combS1OverS2 _ hk _ _ _ =>
        simp only [Prod.mk.injEq] at hw
        omega
      | combS2OverS1 _ _ _ _ _ => simp at hw
    | succ j =>
      exact le_bestMove (fun i j => (tableCell scoring studentTokens teacherTokens i j).1) h

variable (scoring) in
/-- The move of a cell is a step that has its score. -/
theorem tableCell_attains {i j : ℕ} (hi : i ≤ studentTokens.length)
    (hj : j ≤ teacherTokens.length) (hcell : ¬ (i = 0 ∧ j = 0)) :
    Move.Attains scoring studentTokens teacherTokens
      (fun i j => (tableCell scoring studentTokens teacherTokens i j).1) i j
      (tableCell scoring studentTokens teacherTokens i j) := by
  rw [tableCell_eq hi hj]
  cases i with
  | zero =>
    cases j with
    | zero => exact absurd ⟨rfl, rfl⟩ hcell
    | succ j => exact ⟨by simp, AlignStep.left hi hj, rfl⟩
  | succ i =>
    cases j with
    | zero => exact ⟨by simp, AlignStep.up hi hj, rfl⟩
    | succ j => exact bestMove_attains _ hi hj

variable (scoring) in
/-- Following the trace from a cell ends in the first cell, and the pairs are an alignment that
has the score of the cell. The fuel covers the rest of the way, as each move lowers `i + j`. -/
theorem traceback_alignment {fuel i j : ℕ} (hfuel : i + j ≤ fuel)
    (hi : i ≤ studentTokens.length) (hj : j ≤ teacherTokens.length) :
    let trace := fun i j => (tableCell scoring studentTokens teacherTokens i j).2
    let pairs := (traceback studentTokens teacherTokens trace fuel i j).reverse
    traceStop trace fuel i j = (0, 0) ∧
      Alignment scoring studentTokens teacherTokens pairs (i, j) ∧
      (pairs.map (pairScore scoring)).sum =
        (tableCell scoring studentTokens teacherTokens i j).1 := by
  intro trace
  have horigin : Alignment scoring studentTokens teacherTokens [] (0, 0) ∧
      (([] : List AlignmentPair).map (pairScore scoring)).sum =
        (tableCell scoring studentTokens teacherTokens 0 0).1 := by
    refine ⟨Path.nil, ?_⟩
    rw [tableCell_eq (Nat.zero_le _) (Nat.zero_le _)]
    rfl
  induction fuel generalizing i j with
  | zero =>
    obtain ⟨rfl, rfl⟩ : i = 0 ∧ j = 0 := by omega
    exact ⟨rfl, horigin⟩
  | succ fuel ih =>
    by_cases hcell : i = 0 ∧ j = 0
    · obtain ⟨rfl, rfl⟩ := hcell
      exact ⟨rfl, horigin⟩
    obtain ⟨hmove, hstep, hscore⟩ := tableCell_attains scoring hi hj hcell
    obtain ⟨-, -, hi', hj', hlt⟩ := hstep.bounds
    obtain ⟨hstop, hpath, hsum⟩ := ih (i := ((trace i j).source i j).1)
      (j := ((trace i j).source i j).2) (by dsimp only [trace] at *; omega) (hi'.trans hi)
      (hj'.trans hj)
    rw [traceback_succ hcell hmove, List.reverse_cons, traceStop, if_neg hcell, if_neg hmove]
    refine ⟨hstop, hpath.snoc hstep, ?_⟩
    rw [List.map_append, List.sum_append, hsum, ← hscore]
    simp [trace]

variable (scoring studentTokens teacherTokens) in
/-- The score of the last cell is the best one of all alignments. -/
theorem tableCell_isGreatest [IsStrictOrderedRing R] {pairs : List AlignmentPair} {v : ℕ × ℕ}
    (hpath : Alignment scoring studentTokens teacherTokens pairs v)
    (hsum : (pairs.map (pairScore scoring)).sum =
      (tableCell scoring studentTokens teacherTokens v.1 v.2).1) :
    IsGreatest {total | ∃ pairs, Alignment scoring studentTokens teacherTokens pairs v ∧
      (pairs.map (pairScore scoring)).sum = total}
      (tableCell scoring studentTokens teacherTokens v.1 v.2).1 := by
  refine Path.isGreatest (fun v => (tableCell scoring studentTokens teacherTokens v.1 v.2).1) ?_
    (fun v e w => tableCell_step) hpath hsum
  rw [tableCell_eq (Nat.zero_le _) (Nat.zero_le _)]
  exact le_rfl

/-- The kernel reads off the last cell of the table. -/
theorem alignDP_eq (scoring : Scoring R) (studentTokens teacherTokens : List Token) :
    alignDP scoring studentTokens teacherTokens =
      ((traceback studentTokens teacherTokens
          (fun i j => (tableCell scoring studentTokens teacherTokens i j).2)
          (studentTokens.length + teacherTokens.length) studentTokens.length
          teacherTokens.length).reverse,
        (tableCell scoring studentTokens teacherTokens studentTokens.length
          teacherTokens.length).1) := rfl

end Optimal

/-- With exact scores, the score of the last cell is the best one of all alignments, the trace ends
in the first cell, and the traced pairs are an alignment that has this score. -/
theorem alignDP_optimal (scoring : Scoring ℚ) (studentTokens teacherTokens : List Token) :
    let n₁ := studentTokens.length
    let n₂ := teacherTokens.length
    let result := alignDP scoring studentTokens teacherTokens
    IsGreatest {total | ∃ pairs, Alignment scoring studentTokens teacherTokens pairs (n₁, n₂) ∧
        (pairs.map (pairScore scoring)).sum = total} result.2 ∧
      traceStop (fun i j => (tableCell scoring studentTokens teacherTokens i j).2) (n₁ + n₂) n₁ n₂ =
        (0, 0) ∧
      Alignment scoring studentTokens teacherTokens result.1 (n₁, n₂) ∧
      (result.1.map (pairScore scoring)).sum = result.2 := by
  intro n₁ n₂ result
  obtain ⟨hstop, hpath, hsum⟩ := traceback_alignment scoring (le_refl (n₁ + n₂)) (le_refl n₁)
    (le_refl n₂)
  simp only [result, alignDP_eq]
  exact ⟨tableCell_isGreatest scoring studentTokens teacherTokens hpath hsum, hstop, hpath, hsum⟩

end NemoRL.XToken
