import Mathlib.Algebra.Order.Field.Basic
import Mathlib.Order.WithBot
import NemoRL.Error
import NemoRL.Lib.IndexPerm
import NemoRL.Lib.Scatter

/-!
# The exact token map

A projection has for each student token a row of teacher tokens with weights. `buildExactTokenMap`
pairs the student tokens that have an exact counterpart with it and returns the tokens of both
vocabularies that are in no pair. Where several students claim one teacher, scattering with
reduction decides: first to the largest weight of the teacher, if weights count, then to the
smallest student.

A weight may be no number, which is sorted before all numbers and equal to none of them. How a row
is sorted where weights are equal is left open. The projection has been read from its file; a map
that was built for it before is the same.

## Main definitions

* `TopkProjection` — the entries of each student.
* `buildExactTokenMap` — pairs of tokens, and the tokens left over.
-/

namespace NemoRL.XToken

open Lib

variable {K : Type}

/-- The teacher tokens of each student token with their weights. Of a weight that is no number
there is `⊤`. -/
structure TopkProjection (K : Type) where
  topK : ℕ
  rows : List (List (ℤ × WithTop K))
  length_rows : ∀ row ∈ rows, row.length = topK

/-- Pairs of tokens, and the tokens of both sides in no pair. -/
structure ExactTokenMap where
  commonStudent : List ℕ
  commonTeacher : List ℕ
  uncommonStudent : List ℕ
  uncommonTeacher : List ℕ
  deriving DecidableEq, Repr

/-- A student with the teacher it claims. -/
structure Claim (K : Type) where
  student : ℕ
  teacher : ℤ
  prob : WithTop K

/-- The sorted weights of the rows, each with its place in the row. -/
abbrev RowSort (K : Type) := ℕ → List (WithTop K) → List (WithTop K × ℕ)

section Build
variable [Field K] [LinearOrder K]

/-- Whether a row maps its student to one teacher: the largest weight is one and there is no
second entry, or it is at least `0.6`. -/
def hasExactMap (xtokenLoss : Bool) (row : List (ℤ × WithTop K)) (prob : WithTop K) : Bool :=
  if xtokenLoss then decide (((3 / 5 : K) : WithTop K) ≤ prob ∧ prob ≠ ⊤)
  else decide (prob = ((1 : K) : WithTop K)) && (row[1]?).map Prod.fst == some (-1)

/-- What a student claims: the teacher of its first entry after sorting. -/
def claimOf (sort : RowSort K) (xtokenLoss : Bool) (row : List (ℤ × WithTop K)) (s : ℕ) :
    Option (Claim K) := do
  let (prob, place) ← (sort s (row.map Prod.snd)).head?
  let (teacher, _) ← row[place]?
  if hasExactMap xtokenLoss row prob then some ⟨s, teacher, prob⟩ else none

/-- The students with an exact map, in their order. -/
def candidates (sort : RowSort K) (xtokenLoss : Bool) (projection : TopkProjection K) :
    List (Claim K) :=
  projection.rows.zipIdx.filterMap fun p => claimOf sort xtokenLoss p.1 p.2

/-- The claims of teachers that there are. -/
def inBounds (vTeacher : ℕ) (claims : List (Claim K)) : List (Claim K) :=
  claims.filter fun c => 0 ≤ c.teacher ∧ c.teacher < vTeacher

/-- The largest weight of each teacher. -/
def maxProbPerT (vTeacher : ℕ) (claims : List (Claim K)) : List (WithBot (WithTop K)) :=
  scatterReduce max (List.replicate vTeacher ⊥)
    (claims.map fun c => (c.teacher.toNat, (c.prob : WithBot (WithTop K))))

/-- Whether a claim is up to the largest weight of its teacher. -/
def eligible (xtokenLoss : Bool) (maxProb : List (WithBot (WithTop K))) (c : Claim K) : Bool :=
  if xtokenLoss then
    (maxProb[c.teacher.toNat]?).any fun m => decide (m ≤ (c.prob : WithBot (WithTop K)))
  else true

/-- The smallest eligible student of each teacher. -/
def minSPerT (vStudent vTeacher : ℕ) (isEligible : Claim K → Bool) (claims : List (Claim K)) :
    List ℕ :=
  scatterReduce min (List.replicate vTeacher vStudent)
    (claims.map fun c => (c.teacher.toNat, if isEligible c then c.student else vStudent))

/-- The claims that win their teacher. -/
def winners (xtokenLoss : Bool) (vStudent vTeacher : ℕ) (claims : List (Claim K)) :
    List (Claim K) :=
  let isEligible := eligible xtokenLoss (maxProbPerT vTeacher claims)
  let minS := minSPerT vStudent vTeacher isEligible claims
  claims.filter fun c => isEligible c && minS[c.teacher.toNat]? == some c.student

/-- The tokens that are not common. -/
def uncommon (size : ℕ) (common : List ℕ) : List ℕ :=
  let mask := setAll (List.replicate size false) (common.map fun i => (i, true))
  (List.range size).filter fun i => mask[i]? == some false

/-- Raise when the columns that are read are not there. -/
def checkColumns (xtokenLoss : Bool) (topK : ℕ) : Except PyError Unit := do
  if topK = 0 then
    throw ⟨.indexError, "index 0 is out of bounds for dimension 1 with size 0"⟩
  if xtokenLoss = false ∧ topK = 1 then
    throw ⟨.indexError, "index 1 is out of bounds for dimension 1 with size 1"⟩

/-- Pair the tokens with an exact counterpart. -/
def buildExactTokenMap (sort : RowSort K) (projection : TopkProjection K) (xtokenLoss : Bool)
    (teacherVocabSize : ℕ) : Except PyError ExactTokenMap := do
  let vStudent := projection.rows.length
  checkColumns xtokenLoss projection.topK
  let claims := candidates sort xtokenLoss projection
  if claims.isEmpty then
    return ⟨[], [], List.range vStudent, List.range teacherVocabSize⟩
  else
    let won := winners xtokenLoss vStudent teacherVocabSize (inBounds teacherVocabSize claims)
    let sorted := won.mergeSort fun c c' => c.student ≤ c'.student
    let commonStudent := sorted.map Claim.student
    let commonTeacher := sorted.map fun c => c.teacher.toNat
    return ⟨commonStudent, commonTeacher, uncommon vStudent commonStudent,
      uncommon teacherVocabSize commonTeacher⟩

end Build

end NemoRL.XToken
