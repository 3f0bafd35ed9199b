import Mathlib.Algebra.Field.Rat
import Mathlib.Algebra.Order.Ring.Rat
import NemoRL.Lib.TopK
import NemoRL.XToken.ExactTokenMap

/-!
# The exact token map is a partial matching

No token is in two pairs of the exact token map, each pair is an entry of the projection, and the
tokens that are left over are those in no pair. Of the students that claim one teacher the one with
the largest weight wins where weights count, and of those that are as good the first.

## Main definitions

* `SortsDescending` — what is known of a sort.
* `Claims` — a student that claims a teacher.
* `IsPartialMatching` — what an exact token map is.

## Main results

* `exists_winner` — each claimed teacher is won by the best of its students.
* `buildExactTokenMap_isPartialMatching` — the map that is built.
-/

namespace NemoRL.XToken

open Lib

variable {K : Type}

/-! ## Tokens left over -/

/-- Two lists of tokens of a vocabulary have no token in common and are all of it. -/
theorem uncommon_eq {size : ℕ} {common : List ℕ} (hnd : common.Nodup) :
    uncommon size common = (List.range size).filter fun i => i ∉ common := by
  refine List.filter_congr fun i hi => ?_
  have hlt : i < (List.replicate size false).length := by
    rwa [List.length_replicate, ← List.mem_range]
  have hfst : (common.map fun i => (i, true)).map Prod.fst = common := by
    rw [List.map_map]
    exact List.map_id common
  by_cases hmem : i ∈ common
  · have hset : (setAll (List.replicate size false) (common.map fun i => (i, true)))[i]? =
        some true := by
      have hpair : (i, true) ∈ common.map fun i => (i, true) := List.mem_map_of_mem hmem
      exact getElem?_setAll (hfst.symm ▸ hnd) hpair hlt
    simp [hset, hmem]
  · have hset : (setAll (List.replicate size false) (common.map fun i => (i, true)))[i]? =
        some false := by
      rw [getElem?_setAll_of_notMem (hfst.symm ▸ hmem), List.getElem?_eq_getElem hlt,
        List.getElem_replicate]
    simp [hset, hmem]

/-! ## Winners -/

/-- Claims in the order of their students, each with a teacher and a student that there are. -/
structure WellFormed (vStudent vTeacher : ℕ) (claims : List (Claim K)) : Prop where
  students : claims.Pairwise fun c c' => c.student < c'.student
  student_lt : ∀ c ∈ claims, c.student < vStudent
  teacher_nonneg : ∀ c ∈ claims, 0 ≤ c.teacher
  teacher_lt : ∀ c ∈ claims, c.teacher < vTeacher

section Winners
variable [LinearOrder K] {vStudent vTeacher : ℕ} {claims : List (Claim K)} {c c' : Claim K}
  {xtokenLoss : Bool}

/-- The largest weight of a teacher is the weight of one of its claims. -/
theorem maxProbPerT_spec (h : WellFormed vStudent vTeacher claims) (hc : c ∈ claims) :
    ∃ best ∈ claims, best.teacher = c.teacher ∧
      (maxProbPerT vTeacher claims)[c.teacher.toNat]? = some (best.prob : WithBot (WithTop K)) ∧
      ∀ c' ∈ claims, c'.teacher = c.teacher → c'.prob ≤ best.prob := by
  have hlt : c.teacher.toNat < vTeacher := by
    have := h.teacher_nonneg c hc
    have := h.teacher_lt c hc
    omega
  have hcell : (List.replicate vTeacher (⊥ : WithBot (WithTop K)))[c.teacher.toNat]? =
      some ⊥ := by
    rw [List.getElem?_replicate, if_pos hlt]
  obtain ⟨m, hm, hmem, hbest⟩ := selects_max.scatterReduce hcell
    (claims.map fun c => (c.teacher.toNat, (c.prob : WithBot (WithTop K))))
  have hle : ∀ c' ∈ claims, c'.teacher = c.teacher → (c'.prob : WithBot (WithTop K)) ≤ m :=
    fun c' hc' heq => hbest _ (List.mem_map_of_mem hc') (congrArg Int.toNat heq)
  rcases hmem with rfl | ⟨u, hu, hut, rfl⟩
  · exact absurd (hle c hc rfl) (not_le.mpr (WithBot.bot_lt_coe c.prob))
  · obtain ⟨best, hmem, rfl⟩ := List.mem_map.mp hu
    have hteacher : best.teacher = c.teacher := by
      have := h.teacher_nonneg c hc
      have := h.teacher_nonneg best hmem
      simp only at hut
      omega
    exact ⟨best, hmem, hteacher, hm, fun c' hc' heq => WithBot.coe_le_coe.mp (hle c' hc' heq)⟩

/-- What is eligible: any claim, or the claims with the largest weight of their teacher. -/
theorem eligible_iff (h : WellFormed vStudent vTeacher claims) (hc : c ∈ claims) :
    eligible xtokenLoss (maxProbPerT vTeacher claims) c = true ↔
      (xtokenLoss = true → ∀ c' ∈ claims, c'.teacher = c.teacher → c'.prob ≤ c.prob) := by
  obtain ⟨best, hmem, hteacher, hbest, hle⟩ := maxProbPerT_spec h hc
  cases xtokenLoss with
  | false => simp [eligible]
  | true =>
    rw [eligible, if_pos rfl, hbest, Option.any_some, decide_eq_true_eq, WithBot.coe_le_coe]
    constructor
    · exact fun hprob _ c' hc' heq => (hle c' hc' heq).trans hprob
    · exact fun hall => hall rfl best hmem hteacher

/-- What wins: the first of the eligible claims of a teacher. -/
theorem mem_winners (h : WellFormed vStudent vTeacher claims) :
    c ∈ winners xtokenLoss vStudent vTeacher claims ↔ c ∈ claims ∧
      eligible xtokenLoss (maxProbPerT vTeacher claims) c = true ∧
      ∀ c' ∈ claims, c'.teacher = c.teacher →
        eligible xtokenLoss (maxProbPerT vTeacher claims) c' = true →
          c.student ≤ c'.student := by
  set isEligible := eligible xtokenLoss (maxProbPerT vTeacher claims) with hdef
  have hwinners : c ∈ winners xtokenLoss vStudent vTeacher claims ↔ c ∈ claims ∧
      isEligible c = true ∧
      (minSPerT vStudent vTeacher isEligible claims)[c.teacher.toNat]? = some c.student := by
    rw [winners, List.mem_filter, ← hdef, Bool.and_eq_true, beq_iff_eq]
  rw [hwinners]
  refine and_congr_right fun hc => and_congr_right fun helig => ?_
  have hlt : c.teacher.toNat < vTeacher := by
    have := h.teacher_nonneg c hc
    have := h.teacher_lt c hc
    omega
  have hcell : (List.replicate vTeacher vStudent)[c.teacher.toNat]? = some vStudent := by
    rw [List.getElem?_replicate, if_pos hlt]
  obtain ⟨m, hm, hmem, hbest⟩ := selects_min.scatterReduce hcell
    (claims.map fun c => (c.teacher.toNat, if isEligible c then c.student else vStudent))
  rw [minSPerT, hm, Option.some.injEq]
  have hle : ∀ c' ∈ claims, c'.teacher = c.teacher → isEligible c' = true →
      m ≤ c'.student := by
    intro c' hc' heq helig'
    have := hbest _ (List.mem_map_of_mem hc') (congrArg Int.toNat heq)
    simpa [helig'] using this
  constructor
  · rintro rfl
    exact hle
  · intro hfirst
    have hmc := hle c hc rfl helig
    have hcs := h.student_lt c hc
    rcases hmem with rfl | ⟨u, hu, hut, hum⟩
    · omega
    · obtain ⟨c', hc', rfl⟩ := List.mem_map.mp hu
      -- a claim that is not eligible would not be below the number of students
      cases helig' : isEligible c' with
      | false =>
        simp only [helig', Bool.false_eq_true, if_false] at hum
        omega
      | true =>
        simp only [helig', if_true] at hum
        have hteacher : c'.teacher = c.teacher := by
          have := h.teacher_nonneg c hc
          have := h.teacher_nonneg c' hc'
          simp only at hut
          omega
        have := hfirst c' hc' hteacher helig'
        omega

/-- A teacher is won once. -/
theorem winners_unique (h : WellFormed vStudent vTeacher claims)
    (hc : c ∈ winners xtokenLoss vStudent vTeacher claims)
    (hc' : c' ∈ winners xtokenLoss vStudent vTeacher claims) (heq : c.teacher = c'.teacher) :
    c.student = c'.student := by
  obtain ⟨hmem, helig, hfirst⟩ := (mem_winners h).mp hc
  obtain ⟨hmem', helig', hfirst'⟩ := (mem_winners h).mp hc'
  exact le_antisymm (hfirst c' hmem' heq.symm helig') (hfirst' c hmem heq helig)

/-- Each claimed teacher is won by the best of its students. -/
theorem exists_winner (h : WellFormed vStudent vTeacher claims) (hc : c ∈ claims) :
    ∃ w ∈ winners xtokenLoss vStudent vTeacher claims, w.teacher = c.teacher ∧
      (xtokenLoss = true → c.prob ≤ w.prob) ∧
      ((xtokenLoss = true → c.prob = w.prob) → w.student ≤ c.student) := by
  obtain ⟨best, hbest, hteacher, -, hle⟩ := maxProbPerT_spec h hc
  have hex : ∃ s, ∃ e ∈ claims, e.teacher = c.teacher ∧
      eligible xtokenLoss (maxProbPerT vTeacher claims) e = true ∧ e.student = s := by
    refine ⟨best.student, best, hbest, hteacher, (eligible_iff h hbest).mpr ?_, rfl⟩
    exact fun _ c' hc' heq => hle c' hc' (heq.trans hteacher)
  obtain ⟨w, hw, hwteacher, helig, hstudent⟩ := Nat.find_spec hex
  have hfirst : ∀ c' ∈ claims, c'.teacher = c.teacher →
      eligible xtokenLoss (maxProbPerT vTeacher claims) c' = true → w.student ≤ c'.student := by
    intro c' hc' heq helig'
    rw [hstudent]
    exact Nat.find_min' hex ⟨c', hc', heq, helig', rfl⟩
  have hlargest := (eligible_iff h hw).mp helig
  refine ⟨w, (mem_winners h).mpr ⟨hw, helig, ?_⟩, hwteacher, ?_, ?_⟩
  · exact fun c' hc' heq => hfirst c' hc' (heq.trans hwteacher)
  · exact fun hloss => hlargest hloss c hc hwteacher.symm
  · intro hprob
    refine hfirst c hc rfl ((eligible_iff h hc).mpr fun hloss c' hc' heq => ?_)
    rw [hprob hloss]
    exact hlargest hloss c' hc' (heq.trans hwteacher.symm)

end Winners

/-! ## Claims of a projection -/

section Projection
variable [Field K] [LinearOrder K] {sort : RowSort K} {xtokenLoss : Bool}
  {projection : TopkProjection K}

/-- What is known of a sort: it has the weights of the row with their places, the largest
first. -/
def SortsDescending (sort : RowSort K) : Prop :=
  ∀ s l, (sort s l).Perm l.zipIdx ∧ (sort s l).Pairwise fun p q => q.1 ≤ p.1

/-- An entry of a student that maps it to one teacher: the entry has the largest weight of the
student, which is one and of the only entry, or is at least `0.6`. -/
structure Qualifies (projection : TopkProjection K) (xtokenLoss : Bool) (s : ℕ) (t : ℤ)
    (w : WithTop K) : Prop where
  entry : ∃ row, projection.rows[s]? = some row ∧ (t, w) ∈ row ∧ (∀ e ∈ row, e.2 ≤ w) ∧
    (xtokenLoss = false → (row[1]?).map Prod.fst = some (-1))
  weight : if xtokenLoss then ((3 / 5 : K) : WithTop K) ≤ w ∧ w ≠ ⊤ else w = ((1 : K) : WithTop K)

/-- A student claims a teacher with the entry that its sorted row begins with. -/
structure Claims (sort : RowSort K) (projection : TopkProjection K) (xtokenLoss : Bool) (s : ℕ)
    (t : ℤ) (w : WithTop K) : Prop where
  first : ∃ row place, projection.rows[s]? = some row ∧
    (sort s (row.map Prod.snd)).head? = some (w, place) ∧ row[place]? = some (t, w)
  qualifies : Qualifies projection xtokenLoss s t w

theorem hasExactMap_iff {row : List (ℤ × WithTop K)} {w : WithTop K} :
    hasExactMap xtokenLoss row w = true ↔
      (if xtokenLoss then ((3 / 5 : K) : WithTop K) ≤ w ∧ w ≠ ⊤ else w = ((1 : K) : WithTop K)) ∧
        (xtokenLoss = false → (row[1]?).map Prod.fst = some (-1)) := by
  cases xtokenLoss <;> simp [hasExactMap]

omit [Field K] in
/-- The entry that a sorted row begins with has the largest weight. -/
theorem head_sort (hsort : SortsDescending sort) {s place : ℕ} {row : List (ℤ × WithTop K)}
    {w : WithTop K} (h : (sort s (row.map Prod.snd)).head? = some (w, place)) :
    (∃ t, row[place]? = some (t, w)) ∧ ∀ e ∈ row, e.2 ≤ w := by
  obtain ⟨hperm, hpairwise⟩ := hsort s (row.map Prod.snd)
  obtain ⟨rest, hrest⟩ := List.head?_eq_some_iff.mp h
  constructor
  · have hmem : (w, place) ∈ (row.map Prod.snd).zipIdx :=
      hperm.subset (hrest ▸ List.mem_cons_self)
    rw [List.mk_mem_zipIdx_iff_getElem?, List.getElem?_map] at hmem
    obtain ⟨⟨t, w'⟩, hget, rfl⟩ := Option.map_eq_some_iff.mp hmem
    exact ⟨t, hget⟩
  · intro e he
    obtain ⟨i, hi, rfl⟩ := List.getElem_of_mem he
    have hmem : (row[i].2, i) ∈ sort s (row.map Prod.snd) := by
      refine hperm.symm.subset (List.mk_mem_zipIdx_iff_getElem?.mpr ?_)
      rw [List.getElem?_map, List.getElem?_eq_getElem hi]
      rfl
    rw [hrest] at hmem hpairwise
    rcases List.mem_cons.mp hmem with heq | hmem
    · exact (congrArg Prod.fst heq).le
    · exact (List.pairwise_cons.mp hpairwise).1 _ hmem

/-- The candidates are the claims. -/
theorem mem_candidates (hsort : SortsDescending sort) {c : Claim K} :
    c ∈ candidates sort xtokenLoss projection ↔
      Claims sort projection xtokenLoss c.student c.teacher c.prob := by
  rw [candidates, List.mem_filterMap]
  constructor
  · rintro ⟨⟨row, s⟩, hmem, hclaim⟩
    rw [List.mk_mem_zipIdx_iff_getElem?] at hmem
    simp only [claimOf, Option.bind_eq_bind, Option.bind_eq_some_iff] at hclaim
    obtain ⟨⟨w, place⟩, hhead, ⟨t, w'⟩, hget, hclaim⟩ := hclaim
    split at hclaim
    case isFalse => cases hclaim
    case isTrue hexact =>
      obtain rfl := Option.some.inj hclaim
      obtain ⟨⟨t', ht'⟩, hle⟩ := head_sort hsort hhead
      rw [hget, Option.some.injEq, Prod.mk.injEq] at ht'
      obtain ⟨rfl, rfl⟩ := ht'
      obtain ⟨hweight, hsecond⟩ := hasExactMap_iff.mp hexact
      exact ⟨⟨row, place, hmem, hhead, hget⟩,
        ⟨⟨row, hmem, List.mem_of_getElem? hget, hle, hsecond⟩, hweight⟩⟩
  · rintro ⟨⟨row, place, hrow, hhead, hget⟩, ⟨⟨row', hrow', -, -, hsecond⟩, hweight⟩⟩
    obtain rfl := Option.some.inj (hrow.symm.trans hrow')
    refine ⟨(row, c.student), List.mk_mem_zipIdx_iff_getElem?.mpr hrow, ?_⟩
    have hexact := hasExactMap_iff.mpr ⟨hweight, hsecond⟩
    simp only [claimOf, hhead, hget, hexact, Option.bind_eq_bind, Option.bind_some, if_true]

/-- Each student has at most one claim. -/
theorem pairwise_candidates (sort : RowSort K) (xtokenLoss : Bool)
    (projection : TopkProjection K) :
    (candidates sort xtokenLoss projection).Pairwise fun c c' => c.student < c'.student := by
  have hstudent : ∀ (row : List (ℤ × WithTop K)) s c, claimOf sort xtokenLoss row s = some c →
      c.student = s := by
    intro row s c hclaim
    simp only [claimOf, Option.bind_eq_bind, Option.bind_eq_some_iff] at hclaim
    obtain ⟨⟨w, place⟩, -, ⟨t, w'⟩, -, hclaim⟩ := hclaim
    split at hclaim
    case isFalse => cases hclaim
    case isTrue => exact (congrArg Claim.student (Option.some.inj hclaim)).symm
  have hidx : projection.rows.zipIdx.Pairwise fun p q => p.2 < q.2 := by
    rw [← List.pairwise_map (f := Prod.snd) (R := fun i j => i < j), List.zipIdx_map_snd]
    exact List.pairwise_lt_range'
  rw [candidates, List.pairwise_filterMap]
  refine hidx.imp ?_
  intro p q hlt c hc c' hc'
  rw [hstudent _ _ _ hc, hstudent _ _ _ hc']
  exact hlt

theorem wellFormed_inBounds (hsort : SortsDescending sort) (vTeacher : ℕ) :
    WellFormed projection.rows.length vTeacher
      (inBounds vTeacher (candidates sort xtokenLoss projection)) := by
  refine ⟨(pairwise_candidates sort xtokenLoss projection).filter _, ?_, ?_, ?_⟩
  · intro c hc
    obtain ⟨⟨row, -, hrow, -⟩, -⟩ := (mem_candidates hsort).mp (List.mem_of_mem_filter hc)
    exact (List.getElem?_eq_some_iff.mp hrow).1
  · intro c hc
    exact (decide_eq_true_eq.mp (List.mem_filter.mp hc).2).1
  · intro c hc
    exact (decide_eq_true_eq.mp (List.mem_filter.mp hc).2).2

/-! ## The map -/

/-- What an exact token map is. -/
structure IsPartialMatching (sort : RowSort K) (projection : TopkProjection K) (xtokenLoss : Bool)
    (vTeacher : ℕ) (m : ExactTokenMap) : Prop where
  length_eq : m.commonStudent.length = m.commonTeacher.length
  /-- The students of the pairs are distinct and in order. -/
  students : m.commonStudent.Pairwise fun s s' => s < s'
  teachers : m.commonTeacher.Nodup
  qualifies : ∀ p ∈ m.commonStudent.zip m.commonTeacher, p.2 < vTeacher ∧
    ∃ w, Qualifies projection xtokenLoss p.1 p.2 w
  uncommonStudent : m.uncommonStudent =
    (List.range projection.rows.length).filter fun s => s ∉ m.commonStudent
  uncommonTeacher : m.uncommonTeacher =
    (List.range vTeacher).filter fun t => t ∉ m.commonTeacher
  /-- A teacher is won by a student of the largest weight, and by the first of these. -/
  conflicts : ∀ (s t : ℕ) (w : WithTop K), Claims sort projection xtokenLoss s t w →
    t < vTeacher → ∃ s' w', (s', t) ∈ m.commonStudent.zip m.commonTeacher ∧
      Claims sort projection xtokenLoss s' t w' ∧ (xtokenLoss = true → w ≤ w') ∧
      ((xtokenLoss = true → w = w') → s' ≤ s)

/-- The map that is built. -/
theorem buildExactTokenMap_eq (sort : RowSort K) (hcolumns : 1 ≤ projection.topK)
    (hstrict : xtokenLoss = false → 2 ≤ projection.topK) (vTeacher : ℕ) :
    let won := winners xtokenLoss projection.rows.length vTeacher
      (inBounds vTeacher (candidates sort xtokenLoss projection))
    buildExactTokenMap sort projection xtokenLoss vTeacher =
      .ok ⟨won.map Claim.student, won.map fun c => c.teacher.toNat,
        uncommon projection.rows.length (won.map Claim.student),
        uncommon vTeacher (won.map fun c => c.teacher.toNat)⟩ := by
  intro won
  have hcheck : checkColumns xtokenLoss projection.topK = .ok () := by
    have hone : projection.topK ≠ 0 := by omega
    have htwo : ¬(xtokenLoss = false ∧ projection.topK = 1) := by
      rintro ⟨hfalse, hcol⟩
      have := hstrict hfalse
      omega
    rw [checkColumns, if_neg hone, if_neg htwo]
    rfl
  have hsorted : won.mergeSort (fun c c' => c.student ≤ c'.student) = won := by
    refine List.mergeSort_of_pairwise ?_
    refine (((pairwise_candidates sort xtokenLoss projection).filter _).filter _).imp ?_
    exact fun hlt => decide_eq_true hlt.le
  have hnone : ∀ size, uncommon size [] = List.range size := by
    intro size
    rw [uncommon_eq List.nodup_nil]
    simp
  rw [buildExactTokenMap, hcheck]
  simp only [bind, Except.bind, pure, Except.pure]
  split
  case isTrue hempty =>
    have hwon : won = [] := by
      simp only [won, List.isEmpty_iff.mp hempty]
      rfl
    rw [hwon, List.map_nil, List.map_nil, hnone, hnone]
  case isFalse => rw [hsorted]

/-- The map that is built is a partial matching. -/
theorem buildExactTokenMap_isPartialMatching (hsort : SortsDescending sort)
    (hcolumns : 1 ≤ projection.topK) (hstrict : xtokenLoss = false → 2 ≤ projection.topK)
    (vTeacher : ℕ) :
    ∃ m, buildExactTokenMap sort projection xtokenLoss vTeacher = .ok m ∧
      IsPartialMatching sort projection xtokenLoss vTeacher m := by
  have hwell : WellFormed projection.rows.length vTeacher
      (inBounds vTeacher (candidates sort xtokenLoss projection)) :=
    wellFormed_inBounds hsort vTeacher
  refine ⟨_, buildExactTokenMap_eq sort hcolumns hstrict vTeacher, ?_⟩
  set won := winners xtokenLoss projection.rows.length vTeacher
    (inBounds vTeacher (candidates sort xtokenLoss projection)) with hwon
  have hstudents : (won.map Claim.student).Pairwise fun s s' => s < s' := by
    rw [List.pairwise_map]
    exact hwell.students.filter _
  have hclaim : ∀ c ∈ won, 0 ≤ c.teacher ∧ c.teacher < vTeacher ∧
      Claims sort projection xtokenLoss c.student c.teacher c.prob := by
    intro c hc
    have hmem := ((mem_winners hwell).mp hc).1
    exact ⟨hwell.teacher_nonneg c hmem, hwell.teacher_lt c hmem,
      (mem_candidates hsort).mp (List.mem_of_mem_filter hmem)⟩
  have hzip : (won.map Claim.student).zip (won.map fun c => c.teacher.toNat) =
      won.map fun c => (c.student, c.teacher.toNat) := by
    exact List.zip_map'
  have hteachers : (won.map fun c => c.teacher.toNat).Nodup := by
    rw [List.nodup_iff_pairwise_ne, List.pairwise_map]
    refine (hwell.students.filter _).imp_of_mem ?_
    intro c c' hc hc' hlt heq
    have := (hclaim c hc).1
    have := (hclaim c' hc').1
    have hsame := winners_unique hwell hc hc' (by omega)
    omega
  refine ⟨?_, hstudents, hteachers, ?_, ?_, uncommon_eq hteachers, ?_⟩
  · rw [List.length_map, List.length_map]
  · rw [hzip]
    intro p hp
    obtain ⟨c, hc, rfl⟩ := List.mem_map.mp hp
    obtain ⟨hnonneg, hlt, hclaims⟩ := hclaim c hc
    refine ⟨by omega, c.prob, ?_⟩
    rw [Int.toNat_of_nonneg hnonneg]
    exact hclaims.qualifies
  · exact uncommon_eq (hstudents.imp fun hlt => hlt.ne)
  · intro s t w hclaims hlt
    have hmem : (⟨s, t, w⟩ : Claim K) ∈
        inBounds vTeacher (candidates sort xtokenLoss projection) := by
      refine List.mem_filter.mpr ⟨(mem_candidates hsort).mpr hclaims, decide_eq_true ?_⟩
      exact ⟨Int.natCast_nonneg t, Int.ofNat_lt.mpr hlt⟩
    obtain ⟨c, hc, hteacher, hprob, hfirst⟩ : ∃ c ∈ won, c.teacher = t ∧
        (xtokenLoss = true → w ≤ c.prob) ∧ ((xtokenLoss = true → w = c.prob) → c.student ≤ s) :=
      exists_winner hwell hmem
    have hnat : c.teacher.toNat = t := by
      rw [hteacher]
      exact Int.toNat_natCast t
    refine ⟨c.student, c.prob, ?_, ?_, hprob, hfirst⟩
    · rw [hzip]
      exact List.mem_map.mpr ⟨c, hc, by rw [hnat]⟩
    · rw [← hteacher]
      exact (hclaim c hc).2.2

end Projection

/-! ## Two students of one teacher -/

/-- Entries of equal weight stay in their order. -/
def stableSort : RowSort ℚ := fun _ l => sortDesc Prod.fst l.zipIdx

theorem sortsDescending_stableSort : SortsDescending stableSort :=
  fun _ l => ⟨sortDesc_perm Prod.fst l.zipIdx, pairwise_sortDesc Prod.fst l.zipIdx⟩

/-- Two students with one teacher each, of different weights. -/
def twoStudents : TopkProjection ℚ where
  topK := 2
  rows := [[(0, ((4 / 5 : ℚ) : WithTop ℚ)), (-1, 0)], [(0, ((9 / 10 : ℚ) : WithTop ℚ)), (-1, 0)]]
  length_rows := by simp

/-- Where weights count there is a map for the two students. -/
theorem isPartialMatching_twoStudents :
    ∃ m, buildExactTokenMap stableSort twoStudents true 3 = .ok m ∧
      IsPartialMatching stableSort twoStudents true 3 m :=
  buildExactTokenMap_isPartialMatching sortsDescending_stableSort (by decide) (by decide) 3

/-- A student with one entry. -/
def oneEntry : TopkProjection ℚ where
  topK := 1
  rows := [[(0, 1)]]
  length_rows := by simp

/-- Without a second column there is no map when there has to be no second entry. -/
theorem oneEntry_not_matched :
    buildExactTokenMap stableSort oneEntry false 1 =
      .error ⟨.indexError, "index 1 is out of bounds for dimension 1 with size 1"⟩ := rfl

end NemoRL.XToken
