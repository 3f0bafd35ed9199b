import NemoRL.Lib.BestPath
import NemoRL.XToken.Pairs

/-!
# The alignment kernel

A dynamic program scores the ways to align two token sequences, where one token may
match a span of tokens of the other sequence. The trace records the best move into each
cell; following it back from the last cell gives the aligned pairs.

Scores are only added, multiplied and compared, so the type of the scores is arbitrary:
nothing about the pairs depends on how they are rounded.

## Main definitions

* `alignDP` — the kernel.

## Main results

* `alignDP_aligns` — the pairs of the kernel hold all tokens of both sequences.
-/

namespace NemoRL.XToken

open Lib

/-- The parameters of the kernel. -/
structure Scoring (R : Type) where
  exactMatchScore : R
  combinationScoreMultiplier : R
  gapPenalty : R
  maxCombinationLen : ℕ
  ignoreLeadingCharDiff : Bool

/-- The move into a cell. -/
inductive Move
  | none
  | diag
  | up
  | left
  | combS1OverS2 (k : ℕ)
  | combS2OverS1 (k : ℕ)
  deriving DecidableEq, Repr

/-! ## The table -/

section Kernel
variable {R : Type} [Zero R] [Add R] [Neg R] [Mul R] [NatCast R] [LT R] [DecidableLT R]
variable (scoring : Scoring R) (studentTokens teacherTokens : List Token)

/-- The best move into an inner cell, given the scores of the cells before it. -/
def bestMove (dp : ℕ → ℕ → R) (i j : ℕ) : R × Move :=
  let studentVal := studentTokens.getD (i - 1) []
  let teacherVal := teacherTokens.getD (j - 1) []
  let equal (s₁ s₂ : Token) : Bool := stringsEqualFlexible s₁ s₂ scoring.ignoreLeadingCharDiff
  let matchScore :=
    if equal studentVal teacherVal then scoring.exactMatchScore else -scoring.exactMatchScore
  let scoreDiag := dp (i - 1) (j - 1) + matchScore
  let scoreUp := dp (i - 1) j + scoring.gapPenalty
  let scoreLeft := dp i (j - 1) + scoring.gapPenalty
  let best : R × Move := (scoreDiag, .diag)
  let best := if best.1 < scoreUp then (scoreUp, .up) else best
  let best := if best.1 < scoreLeft then (scoreLeft, .left) else best
  let best := (List.range' 2 (min j scoring.maxCombinationLen - 1)).foldl (fun best k =>
    let cand := dp (i - 1) (j - k) + scoring.combinationScoreMultiplier * k
    if equal studentVal (slice teacherTokens (j - k) j).flatten ∧ best.1 < cand then
      (cand, .combS1OverS2 k)
    else best) best
  (List.range' 2 (min i scoring.maxCombinationLen - 1)).foldl (fun best k =>
    let cand := dp (i - k) (j - 1) + scoring.combinationScoreMultiplier * k
    if equal teacherVal (slice studentTokens (i - k) i).flatten ∧ best.1 < cand then
      (cand, .combS2OverS1 k)
    else best) best

/-- A cell of the table, given the rows above it and the cells to its left. -/
def cell (rows : List (List (R × Move))) (row : List (R × Move)) (i j : ℕ) : R × Move :=
  let dp (i' j' : ℕ) : R :=
    if i' = i then (row.getD j' (0, .none)).1 else ((rows.getD i' []).getD j' (0, .none)).1
  if i = 0 then
    if j = 0 then (0, .none) else (dp 0 (j - 1) + scoring.gapPenalty, .left)
  else if j = 0 then (dp (i - 1) 0 + scoring.gapPenalty, .up)
  else bestMove scoring studentTokens teacherTokens dp i j

/-- A row of the table, given the rows above it. -/
def fillRow (rows : List (List (R × Move))) (i : ℕ) : List (R × Move) :=
  (List.range (teacherTokens.length + 1)).foldl
    (fun row j => row ++ [cell scoring studentTokens teacherTokens rows row i j]) []

/-- The scores and the moves of all cells. -/
def fillTable : List (List (R × Move)) :=
  (List.range (studentTokens.length + 1)).foldl
    (fun rows i => rows ++ [fillRow scoring studentTokens teacherTokens rows i]) []

/-! ## Following the trace -/

omit [Zero R] [Add R] [Neg R] [Mul R] [NatCast R] [LT R] [DecidableLT R] in
/-- Follow the trace back from a cell. The last pair comes first. -/
def traceback (trace : ℕ → ℕ → Move) : ℕ → ℕ → ℕ → List AlignmentPair
  | 0, _, _ => []
  | fuel + 1, i, j =>
    if i = 0 ∧ j = 0 then []
    else match trace i j with
      | .diag =>
        ⟨[studentTokens.getD (i - 1) []], [teacherTokens.getD (j - 1) []],
          (i - 1 : ℕ), i, (j - 1 : ℕ), j, false⟩ :: traceback trace fuel (i - 1) (j - 1)
      | .up =>
        ⟨[studentTokens.getD (i - 1) []], [], (i - 1 : ℕ), i, -1, -1, false⟩ ::
          traceback trace fuel (i - 1) j
      | .left =>
        ⟨[], [teacherTokens.getD (j - 1) []], -1, -1, (j - 1 : ℕ), j, false⟩ ::
          traceback trace fuel i (j - 1)
      | .combS1OverS2 k =>
        ⟨[studentTokens.getD (i - 1) []], slice teacherTokens (j - k) j,
          (i - 1 : ℕ), i, (j - k : ℕ), j, false⟩ :: traceback trace fuel (i - 1) (j - k)
      | .combS2OverS1 k =>
        ⟨slice studentTokens (i - k) i, [teacherTokens.getD (j - 1) []],
          (i - k : ℕ), i, (j - 1 : ℕ), j, false⟩ :: traceback trace fuel (i - k) (j - 1)
      | .none => []

/-- Align two sequences. Returns the pairs and the score of the last cell. Every move
leads to an earlier cell, so the lengths bound the number of moves. -/
def alignDP : List AlignmentPair × R :=
  let n₁ := studentTokens.length
  let n₂ := teacherTokens.length
  let table := fillTable scoring studentTokens teacherTokens
  let trace (i j : ℕ) : Move := ((table.getD i []).getD j (0, .none)).2
  ((traceback studentTokens teacherTokens trace (n₁ + n₂) n₁ n₂).reverse,
    ((table.getD n₁ []).getD n₂ (0, .none)).1)

/-! ## The moves of the table -/

end Kernel

/-- A move that stays inside the table. -/
def Move.Fits (i j : ℕ) : Move → Prop
  | .none => i = 0 ∧ j = 0
  | .diag => 0 < i ∧ 0 < j
  | .up => 0 < i
  | .left => 0 < j
  | .combS1OverS2 k => 0 < i ∧ 0 < k ∧ k ≤ j
  | .combS2OverS1 k => 0 < k ∧ k ≤ i ∧ 0 < j

section Fits
variable {R : Type} [Zero R] [Add R] [Neg R] [Mul R] [NatCast R] [LT R] [DecidableLT R]
variable (scoring : Scoring R) (studentTokens teacherTokens : List Token)

omit [Zero R] in
theorem bestMove_fits (dp : ℕ → ℕ → R) {i j : ℕ} (hi : 0 < i) (hj : 0 < j) :
    (bestMove scoring studentTokens teacherTokens dp i j).2.Fits i j := by
  have hite : ∀ {c : Prop} [Decidable c] {x y : R × Move}, x.2.Fits i j → y.2.Fits i j →
      (if c then x else y).2.Fits i j := by
    intro c _ x y hx hy
    split
    case isTrue => exact hx
    case isFalse => exact hy
  simp only [bestMove]
  refine List.foldlRecOn (motive := fun best : R × Move => best.2.Fits i j) _ _
    (List.foldlRecOn (motive := fun best : R × Move => best.2.Fits i j) _ _ ?_ ?_) ?_
  · refine hite ?_ (hite ?_ ?_)
    · exact hj
    · exact hi
    · exact ⟨hi, hj⟩
  · intro best hbest k hk
    rw [List.mem_range'_1] at hk
    refine hite ?_ hbest
    exact ⟨hi, by omega, by omega⟩
  · intro best hbest k hk
    rw [List.mem_range'_1] at hk
    refine hite ?_ hbest
    exact ⟨by omega, by omega, hj⟩

theorem cell_fits (rows : List (List (R × Move))) (row : List (R × Move)) (i j : ℕ) :
    (cell scoring studentTokens teacherTokens rows row i j).2.Fits i j := by
  rw [cell]
  by_cases hi : i = 0
  · rw [if_pos hi]
    by_cases hj : j = 0
    · rw [if_pos hj]
      exact ⟨hi, hj⟩
    · rw [if_neg hj]
      exact Nat.pos_of_ne_zero hj
  · rw [if_neg hi]
    by_cases hj : j = 0
    · rw [if_pos hj]
      exact Nat.pos_of_ne_zero hi
    · rw [if_neg hj]
      exact bestMove_fits _ _ _ _ (Nat.pos_of_ne_zero hi) (Nat.pos_of_ne_zero hj)

/-- Every recorded move stays inside the table. -/
theorem fillTable_fits {i j : ℕ} (hi : i ≤ studentTokens.length) (hj : j ≤ teacherTokens.length) :
    ((((fillTable scoring studentTokens teacherTokens).getD i []).getD j (0, .none)).2).Fits
      i j := by
  have hrow : (fillTable scoring studentTokens teacherTokens).getD i [] =
      fillRow scoring studentTokens teacherTokens
        (build (fillRow scoring studentTokens teacherTokens) i) i :=
    getD_build_eq _ (Nat.lt_succ_of_le hi) []
  rw [hrow]
  have hcell := getD_build_eq (cell scoring studentTokens teacherTokens
    (build (fillRow scoring studentTokens teacherTokens) i) · i ·) (Nat.lt_succ_of_le hj) (0, .none)
  rw [fillRow, ← build, hcell]
  exact cell_fits _ _ _ _ _ _ _

end Fits

/-! ## The pairs -/

section Traceback
variable {studentTokens teacherTokens : List Token} {trace : ℕ → ℕ → Move}

/-- Adding a pair for the tokens from `i'` to `i` and from `j'` to `j`. -/
theorem Aligns.snoc {i' j' i j : ℕ} {pairs : List AlignmentPair} {pair : AlignmentPair}
    (h : Aligns (studentTokens.take i') (teacherTokens.take j') 0 0 pairs)
    (hi : i' ≤ i) (hj : j' ≤ j) (hin : i ≤ studentTokens.length) (hjn : j ≤ teacherTokens.length)
    (hs : pair.sTokens = slice studentTokens i' i) (ht : pair.tTokens = slice teacherTokens j' j)
    (hsits : pair.student.Sits i') (htits : pair.teacher.Sits j') :
    Aligns (studentTokens.take i) (teacherTokens.take j) 0 0 (pairs ++ [pair]) := by
  rw [← take_append_slice studentTokens hi, ← take_append_slice teacherTokens hj, ← hs, ← ht]
  refine h.append (Aligns.single ?_ ?_)
  · rwa [zero_add, List.length_take, min_eq_left (hi.trans hin)]
  · rwa [zero_add, List.length_take, min_eq_left (hj.trans hjn)]

/-- Following a trace of moves that stay inside the table aligns all tokens before the
cell. Each move lowers `i + j`. -/
theorem traceback_aligns (htrace : ∀ i j, i ≤ studentTokens.length → j ≤ teacherTokens.length →
      (trace i j).Fits i j) {fuel i j : ℕ} (hfuel : i + j ≤ fuel)
    (hi : i ≤ studentTokens.length) (hj : j ≤ teacherTokens.length) :
    Aligns (studentTokens.take i) (teacherTokens.take j) 0 0
      (traceback studentTokens teacherTokens trace fuel i j).reverse := by
  induction fuel generalizing i j with
  | zero =>
    obtain ⟨rfl, rfl⟩ : i = 0 ∧ j = 0 := by omega
    exact Aligns.nil 0 0
  | succ fuel ih =>
    rw [traceback]
    by_cases hzero : i = 0 ∧ j = 0
    · rw [if_pos hzero]
      obtain ⟨rfl, rfl⟩ := hzero
      exact Aligns.nil 0 0
    · rw [if_neg hzero]
      have hfits := htrace i j hi hj
      have hs : 0 < i → slice studentTokens (i - 1) i = [studentTokens.getD (i - 1) []] := by
        intro hpos
        have := slice_singleton (l := studentTokens) (i := i - 1) (by omega) []
        rwa [Nat.sub_add_cancel hpos] at this
      have ht : 0 < j → slice teacherTokens (j - 1) j = [teacherTokens.getD (j - 1) []] := by
        intro hpos
        have := slice_singleton (l := teacherTokens) (i := j - 1) (by omega) []
        rwa [Nat.sub_add_cancel hpos] at this
      cases hmove : trace i j with
      | none =>
        rw [hmove] at hfits
        exact (hzero hfits).elim
      | diag =>
        rw [hmove] at hfits
        obtain ⟨hi0, hj0⟩ := hfits
        rw [List.reverse_cons]
        refine Aligns.snoc (ih (by omega) (by omega) (by omega)) (by omega) (by omega) hi hj
          (hs hi0).symm (ht hj0).symm ?_ ?_
        · rw [AlignmentPair.student, ← hs hi0]
          exact sits_slice (by omega) hi
        · rw [AlignmentPair.teacher, ← ht hj0]
          exact sits_slice (by omega) hj
      | up =>
        rw [hmove] at hfits
        rw [List.reverse_cons]
        refine Aligns.snoc (ih (by have : 0 < i := hfits; omega) (by omega) hj) (by omega) le_rfl
          hi hj (hs hfits).symm (by simp [slice]) ?_ (sits_nil _)
        rw [AlignmentPair.student, ← hs hfits]
        exact sits_slice (Nat.sub_lt hfits Nat.one_pos) hi
      | left =>
        rw [hmove] at hfits
        rw [List.reverse_cons]
        refine Aligns.snoc (ih (by have : 0 < j := hfits; omega) hi (by omega)) le_rfl (by omega)
          hi hj (by simp [slice]) (ht hfits).symm (sits_nil _) ?_
        rw [AlignmentPair.teacher, ← ht hfits]
        exact sits_slice (Nat.sub_lt hfits Nat.one_pos) hj
      | combS1OverS2 k =>
        rw [hmove] at hfits
        obtain ⟨hi0, hk0, hkj⟩ := hfits
        rw [List.reverse_cons]
        refine Aligns.snoc (ih (by omega) (by omega) (by omega)) (by omega) (by omega) hi hj
          (hs hi0).symm rfl ?_ (sits_slice (by omega) hj)
        rw [AlignmentPair.student, ← hs hi0]
        exact sits_slice (by omega) hi
      | combS2OverS1 k =>
        rw [hmove] at hfits
        obtain ⟨hk0, hki, hj0⟩ := hfits
        rw [List.reverse_cons]
        refine Aligns.snoc (ih (by omega) (by omega) (by omega)) (by omega) (by omega) hi hj
          rfl (ht hj0).symm (sits_slice (by omega) hi) ?_
        rw [AlignmentPair.teacher, ← ht hj0]
        exact sits_slice (by omega) hj

end Traceback

/-- The pairs of the kernel hold all tokens of both sequences. -/
theorem alignDP_aligns {R : Type} [Zero R] [Add R] [Neg R] [Mul R] [NatCast R] [LT R]
    [DecidableLT R] (scoring : Scoring R) (studentTokens teacherTokens : List Token) :
    Aligns studentTokens teacherTokens 0 0 (alignDP scoring studentTokens teacherTokens).1 := by
  have h := traceback_aligns (fun i j hi hj => fillTable_fits scoring _ _ hi hj)
    le_rfl (le_refl studentTokens.length) (le_refl teacherTokens.length)
  rwa [List.take_length, List.take_length] at h

end NemoRL.XToken
