import NemoRL.XToken.AlignDP

/-!
# Post-processing an alignment

Two passes repair misaligned pairs. The first joins runs of consecutive misaligned pairs,
away from the end of the sequence. The second splits pairs of the same tokens, and looks
behind each misaligned pair for a chunk of pairs whose texts agree, which it aligns again.

## Main definitions

* `combineConsecutiveMisaligned` — the first pass.
* `reprocess` — the second pass.
* `postProcessAlignment` — both passes.

## Main results

* `postProcessAlignment_aligns` — the pairs hold the same tokens as before.
-/

namespace NemoRL.XToken

open Lib

/-- The canonical text of some tokens. -/
def canonText (tokens : List Token) : Token := tokens.flatMap (canonicalToken · true)

/-- The canonical texts of both sides agree. -/
def textsAgree (sTokens tTokens : List Token) : Bool :=
  stringsEqualFlexible (canonText sTokens) (canonText tTokens) false

def AlignmentPair.isMatch (pair : AlignmentPair) : Bool := textsAgree pair.sTokens pair.tTokens

/-- The tokens of a chunk of pairs as one pair, with the positions of the sides that `p`
picks. -/
def flattenChunk (p : Segment Token → Bool) (chunk : List AlignmentPair) : AlignmentPair :=
  let student := mergeWhere p (chunk.map AlignmentPair.student)
  let teacher := mergeWhere p (chunk.map AlignmentPair.teacher)
  { sTokens := student.items
    tTokens := teacher.items
    sStart := student.start
    sEnd := student.stop
    tStart := teacher.start
    tEnd := teacher.stop }

/-- A side with tokens. -/
def hasTokens (side : Segment Token) : Bool := side.items ≠ []

/-- A side with tokens and a position. -/
def hasPosition (side : Segment Token) : Bool := side.items ≠ [] ∧ side.start ≠ -1

/-! ## Joining misaligned pairs -/

/-- The number of pairs away from the end: all but the last fifth. -/
def endBoundary (n : ℕ) : ℕ := n * 4 / 5

/-- The misaligned pairs right behind the pair with index `i`, up to the boundary. -/
def misalignedAfter (boundary i : ℕ) (rest : List AlignmentPair) : List AlignmentPair :=
  (rest.take (boundary - (i + 1))).takeWhile fun pair => !pair.isMatch

/-- Join runs of misaligned pairs with indices below the boundary. The first pair has
index `i`. -/
def combineRuns (boundary i : ℕ) (pairs : List AlignmentPair) : List AlignmentPair :=
  match pairs with
  | [] => []
  | pair :: rest =>
    if i < boundary ∧ !pair.isMatch ∧ rest ≠ [] ∧ misalignedAfter boundary i rest ≠ [] then
      flattenChunk hasPosition (pair :: misalignedAfter boundary i rest) ::
        combineRuns boundary (i + 1 + (misalignedAfter boundary i rest).length)
          (rest.drop (misalignedAfter boundary i rest).length)
    else pair :: combineRuns boundary (i + 1) rest
termination_by pairs.length
decreasing_by all_goals simp only [List.length_drop, List.length_cons]; omega

/-- Join consecutive misaligned pairs. -/
def combineConsecutiveMisaligned (pairs : List AlignmentPair) : List AlignmentPair :=
  if pairs.length < 2 then pairs else combineRuns (endBoundary pairs.length) 0 pairs

/-! ## Aligning chunks again -/

section Reprocess
variable {R : Type} [Zero R] [Add R] [Neg R] [Mul R] [NatCast R] [LT R] [DecidableLT R]
variable (scoring : Scoring R)

/-- The size of the first chunk whose texts agree. -/
def findChunk (pairs : List AlignmentPair) : Option ℕ :=
  (List.range' 2 (min 10 pairs.length - 1)).find? fun chunkSize =>
    let chunk := pairs.take chunkSize
    textsAgree (chunk.flatMap AlignmentPair.sTokens) (chunk.flatMap AlignmentPair.tTokens)

/-- Align a chunk again. Unless every new pair matches, the chunk becomes one pair. -/
def realignChunk (chunk : List AlignmentPair) : List AlignmentPair :=
  let whole := flattenChunk hasTokens chunk
  let subPairs := (alignDP { scoring with ignoreLeadingCharDiff := false }
    whole.sTokens whole.tTokens).1
  if subPairs.all AlignmentPair.isMatch then
    subPairs.map (AlignmentPair.shift whole.sStart whole.tStart)
  else [whole]

/-- Split pairs of the same tokens and align chunks behind misaligned pairs again. -/
def reprocess (pairs : List AlignmentPair) : List AlignmentPair :=
  match pairs with
  | [] => []
  | cur :: rest =>
    if cur.isCoarse then cur.splitTokens ++ reprocess rest
    else
      (cur :: rest).takeWhile AlignmentPair.isMatch ++
        match _h : (cur :: rest).dropWhile AlignmentPair.isMatch with
        | [] => []
        | bad :: after =>
          match findChunk (bad :: after) with
          | some chunkSize =>
            realignChunk scoring ((bad :: after).take chunkSize) ++
              reprocess (after.drop (chunkSize - 1))
          | none => bad :: reprocess after
termination_by pairs.length
decreasing_by
  · simp
  all_goals
    have hle := (List.dropWhile_suffix AlignmentPair.isMatch (l := cur :: rest)).length_le
    rw [_h] at hle
    simp only [List.length_cons, List.length_drop] at hle ⊢
    omega

/-- Both passes. -/
def postProcessAlignment (pairs : List AlignmentPair) : List AlignmentPair :=
  if pairs = [] then [] else reprocess scoring (combineConsecutiveMisaligned pairs)

end Reprocess

/-! ## The tokens stay aligned -/

section Aligned
variable {s t : List Token} {a b : ℤ} {pairs chunk : List AlignmentPair}

theorem Aligns.flattenChunk (h : Aligns s t a b chunk) {p : Segment Token → Bool}
    (hs : ∀ x ∈ chunk.map AlignmentPair.student, p x = true ↔ x.items ≠ [])
    (ht : ∀ x ∈ chunk.map AlignmentPair.teacher, p x = true ↔ x.items ≠ []) :
    Aligns s t a b [flattenChunk p chunk] := by
  have hsits : (XToken.flattenChunk p chunk).student.Sits a := sits_mergeWhere h.student hs
  have htits : (XToken.flattenChunk p chunk).teacher.Sits b := sits_mergeWhere h.teacher ht
  rw [← h.sTokens, ← h.tTokens]
  exact Aligns.single hsits htits

theorem Aligns.flattenChunk_hasTokens (h : Aligns s t a b chunk) :
    Aligns s t a b [XToken.flattenChunk hasTokens chunk] := by
  apply h.flattenChunk <;> simp [hasTokens]

/-- A side with tokens has a position. -/
theorem hasPosition_iff {xs : List (Segment Token)} (ha : 0 ≤ a) (h : Covers a xs) :
    ∀ x ∈ xs, hasPosition x = true ↔ x.items ≠ [] := by
  intro x hx
  rw [hasPosition, decide_eq_true_eq, and_iff_left_iff_imp]
  intro hne
  have := (h.mem hx hne).1
  omega

theorem Aligns.flattenChunk_hasPosition (h : Aligns s t a b chunk) (ha : 0 ≤ a) (hb : 0 ≤ b) :
    Aligns s t a b [XToken.flattenChunk hasPosition chunk] :=
  h.flattenChunk (hasPosition_iff ha h.student) (hasPosition_iff hb h.teacher)

/-- Replacing a first chunk and the pairs after it. -/
theorem Aligns.replace {rest chunk' rest' : List AlignmentPair}
    (h : Aligns s t a b (chunk ++ rest)) (ha : 0 ≤ a) (hb : 0 ≤ b)
    (hchunk : ∀ {s t}, Aligns s t a b chunk → Aligns s t a b chunk')
    (hrest : ∀ {s t a b}, 0 ≤ a → 0 ≤ b → Aligns s t a b rest → Aligns s t a b rest') :
    Aligns s t a b (chunk' ++ rest') := by
  obtain ⟨s₁, s₂, t₁, t₂, rfl, rfl, h₁, h₂⟩ := h.split
  exact (hchunk h₁).append (hrest (by omega) (by omega) h₂)

theorem misalignedAfter_append_drop (boundary i : ℕ) (rest : List AlignmentPair) :
    misalignedAfter boundary i rest ++ rest.drop (misalignedAfter boundary i rest).length = rest :=
  List.prefix_iff_eq_append.mp ((List.takeWhile_prefix _).trans (List.take_prefix _ _))

theorem combineRuns_aligns (boundary i : ℕ) (ha : 0 ≤ a) (hb : 0 ≤ b)
    (h : Aligns s t a b pairs) : Aligns s t a b (combineRuns boundary i pairs) := by
  induction i, pairs using combineRuns.induct boundary generalizing s t a b with
  | case1 i => rwa [combineRuns]
  | case2 i pair rest hrun ih =>
    rw [combineRuns, if_pos hrun]
    rw [← misalignedAfter_append_drop boundary i rest, ← List.cons_append] at h
    exact h.replace ha hb (fun h => h.flattenChunk_hasPosition ha hb) ih
  | case3 i pair rest hrun ih =>
    rw [combineRuns, if_neg hrun]
    rw [← List.singleton_append] at h
    exact h.replace ha hb id ih

theorem combineConsecutiveMisaligned_aligns (ha : 0 ≤ a) (hb : 0 ≤ b)
    (h : Aligns s t a b pairs) : Aligns s t a b (combineConsecutiveMisaligned pairs) := by
  rw [combineConsecutiveMisaligned]
  split
  case isTrue => exact h
  case isFalse => exact combineRuns_aligns _ _ ha hb h

variable {R : Type} [Zero R] [Add R] [Neg R] [Mul R] [NatCast R] [LT R] [DecidableLT R]
variable (scoring : Scoring R)

theorem realignChunk_aligns (h : Aligns s t a b chunk) :
    Aligns s t a b (realignChunk scoring chunk) := by
  have hwhole := h.flattenChunk_hasTokens
  obtain ⟨hs, ht, rfl, rfl⟩ := aligns_singleton.mp hwhole
  rw [realignChunk]
  split
  case isFalse => exact hwhole
  case isTrue =>
    exact (alignDP_aligns _ _ _).shift_start hs ht

theorem findChunk_le {chunkSize : ℕ} (h : findChunk pairs = some chunkSize) :
    2 ≤ chunkSize := by
  have hmem := List.mem_of_find?_eq_some h
  exact (List.mem_range'_1.mp hmem).1

theorem reprocess_aligns (ha : 0 ≤ a) (hb : 0 ≤ b) (h : Aligns s t a b pairs) :
    Aligns s t a b (reprocess scoring pairs) := by
  induction pairs using reprocess.induct generalizing s t a b with
  | case1 => rwa [reprocess]
  | case2 cur rest hcoarse ih =>
    rw [reprocess, if_pos hcoarse]
    rw [← List.singleton_append] at h
    refine h.replace ha hb (fun h => ?_) ih
    obtain ⟨hs, ht, rfl, rfl⟩ := aligns_singleton.mp h
    exact hcoarse.splitTokens_aligns hs ht
  | case3 cur rest hcoarse ihChunk ihNone =>
    rw [reprocess, if_neg hcoarse]
    rw [← List.takeWhile_append_dropWhile (p := AlignmentPair.isMatch) (l := cur :: rest)] at h
    refine h.replace ha hb id fun {s t a b} ha hb h => ?_
    split
    case h_1 hdrop => exact hdrop ▸ h
    case h_2 bad after hdrop =>
      rw [hdrop] at h
      split
      case h_1 chunkSize hfound =>
        have hsize : 2 ≤ chunkSize := findChunk_le hfound
        have hafter : (bad :: after).drop chunkSize = after.drop (chunkSize - 1) := by
          obtain ⟨n, rfl⟩ : ∃ n, chunkSize = n + 1 := ⟨chunkSize - 1, by omega⟩
          rfl
        rw [← List.take_append_drop chunkSize (bad :: after), hafter] at h
        exact h.replace ha hb (realignChunk_aligns scoring) (ihChunk bad after hdrop chunkSize)
      case h_2 =>
        rw [← List.singleton_append] at h
        exact h.replace ha hb id (ihNone bad after hdrop)

/-- The pairs hold the same tokens as before. -/
theorem postProcessAlignment_aligns (ha : 0 ≤ a) (hb : 0 ≤ b) (h : Aligns s t a b pairs) :
    Aligns s t a b (postProcessAlignment scoring pairs) := by
  rw [postProcessAlignment]
  split
  case isTrue hnil => exact hnil ▸ h
  case isFalse =>
    exact reprocess_aligns scoring ha hb (combineConsecutiveMisaligned_aligns ha hb h)

end Aligned

end NemoRL.XToken
