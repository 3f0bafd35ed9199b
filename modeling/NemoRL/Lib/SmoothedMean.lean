import Mathlib.Algebra.BigOperators.Group.List.Basic
import Mathlib.Algebra.Order.BigOperators.Group.List
import Mathlib.Algebra.Order.Field.Basic
import Mathlib.Tactic.Linarith

/-!
# Means of parts

The mean of a part is its sum by its count, where a small number is added to the count, and
zero for a part in which nothing counts. The means of the parts do not add up to the mean of
the whole unless at most one part counts.

## Main results

* `sum_smoothedMean` — one part counts.
* `smoothedMean_lt_sum` — two parts count.
-/

namespace NemoRL.Lib

variable {K : Type*} [Field K] [LinearOrder K] {ε : K}

/-- The sum of a part by its count. -/
def smoothedMean (ε count sum : K) : K := if 0 < count then sum / (count + ε) else 0

@[simp] theorem smoothedMean_zero (ε sum : K) : smoothedMean ε 0 sum = 0 := by
  simp [smoothedMean]

/-- When at most one part counts, its mean is the mean of the whole. -/
theorem sum_smoothedMean (ε : K) {parts : List (K × K)}
    (hsum : ∀ p ∈ parts, p.1 = 0 → p.2 = 0)
    (h : parts.Pairwise fun p q => p.1 = 0 ∨ q.1 = 0) :
    (parts.map fun p => smoothedMean ε p.1 p.2).sum =
      smoothedMean ε (parts.map Prod.fst).sum (parts.map Prod.snd).sum := by
  induction parts with
  | nil => simp
  | cons p parts ih =>
    obtain ⟨hp, hparts⟩ := List.pairwise_cons.mp h
    have htail := ih (fun q hq => hsum q (List.mem_cons_of_mem p hq)) hparts
    simp only [List.map_cons, List.sum_cons]
    by_cases hzero : p.1 = 0
    · rw [htail, hzero, hsum p List.mem_cons_self hzero]
      simp
    · have hnone : ∀ q ∈ parts, q.1 = 0 := fun q hq => (hp q hq).resolve_left hzero
      have hfst : (parts.map Prod.fst).sum = 0 := by
        refine List.sum_eq_zero fun x hx => ?_
        obtain ⟨q, hq, rfl⟩ := List.mem_map.mp hx
        exact hnone q hq
      have hsnd : (parts.map Prod.snd).sum = 0 := by
        refine List.sum_eq_zero fun x hx => ?_
        obtain ⟨q, hq, rfl⟩ := List.mem_map.mp hx
        exact hsum q (List.mem_cons_of_mem p hq) (hnone q hq)
      rw [htail, hfst, hsnd]
      simp

theorem smoothedMean_self {n : K} (h : 0 ≤ n) : smoothedMean ε n n = n / (n + ε) := by
  rcases h.eq_or_lt with rfl | hpos
  · simp
  · rw [smoothedMean, if_pos hpos]

variable [IsStrictOrderedRing K]

/-- A part weighs less in a larger whole. -/
theorem div_add_le {a b : K} (hε : 0 < ε) (ha : 0 ≤ a) (hb : 0 ≤ b) :
    a / (a + b + ε) ≤ a / (a + ε) :=
  div_le_div_of_nonneg_left ha (by linarith) (by linarith)

theorem smoothedMean_add_le {a b : K} (hε : 0 < ε) (ha : 0 ≤ a) (hb : 0 ≤ b) :
    smoothedMean ε (a + b) (a + b) ≤ smoothedMean ε a a + smoothedMean ε b b := by
  rw [smoothedMean_self (add_nonneg ha hb), smoothedMean_self ha, smoothedMean_self hb, add_div]
  have hright := div_add_le hε hb ha
  rw [add_comm b a] at hright
  exact add_le_add (div_add_le hε ha hb) hright

theorem smoothedMean_add_lt {a b : K} (hε : 0 < ε) (ha : 0 < a) (hb : 0 < b) :
    smoothedMean ε (a + b) (a + b) < smoothedMean ε a a + smoothedMean ε b b := by
  rw [smoothedMean_self (add_nonneg ha.le hb.le), smoothedMean_self ha.le,
    smoothedMean_self hb.le, add_div]
  have hleft : a / (a + b + ε) < a / (a + ε) :=
    div_lt_div_of_pos_left ha (by linarith) (by linarith)
  have hright := div_add_le hε hb.le ha.le
  rw [add_comm b a] at hright
  exact add_lt_add_of_lt_of_le hleft hright

theorem smoothedMean_sum_le {ns : List K} (hε : 0 < ε) (hns : ∀ n ∈ ns, 0 ≤ n) :
    smoothedMean ε ns.sum ns.sum ≤ (ns.map fun n => smoothedMean ε n n).sum := by
  induction ns with
  | nil => simp
  | cons n ns ih =>
    have htail := ih fun m hm => hns m (List.mem_cons_of_mem n hm)
    have hsum : 0 ≤ ns.sum := List.sum_nonneg fun m hm => hns m (List.mem_cons_of_mem n hm)
    rw [List.sum_cons, List.map_cons, List.sum_cons]
    exact (smoothedMean_add_le hε (hns n List.mem_cons_self) hsum).trans
      (add_le_add_right htail _)

/-- When two parts count, the means of the parts exceed the mean of the whole, where every
element is one. -/
theorem smoothedMean_lt_sum {ns : List K} (hε : 0 < ε) (hns : ∀ n ∈ ns, 0 ≤ n)
    (h : ¬ns.Pairwise fun n m => n = 0 ∨ m = 0) :
    smoothedMean ε ns.sum ns.sum < (ns.map fun n => smoothedMean ε n n).sum := by
  induction ns with
  | nil => exact absurd List.Pairwise.nil h
  | cons n ns ih =>
    have hn : 0 ≤ n := hns n List.mem_cons_self
    have htail : ∀ m ∈ ns, 0 ≤ m := fun m hm => hns m (List.mem_cons_of_mem n hm)
    have hsum : 0 ≤ ns.sum := List.sum_nonneg htail
    rw [List.sum_cons, List.map_cons, List.sum_cons]
    by_cases hpair : ns.Pairwise fun n m => n = 0 ∨ m = 0
    · -- the first part counts, and so does a later one
      have hhead : ∃ m ∈ ns, ¬(n = 0 ∨ m = 0) := by
        by_contra hnone
        refine h (List.pairwise_cons.mpr ⟨fun m hm => ?_, hpair⟩)
        by_contra hm'
        exact hnone ⟨m, hm, hm'⟩
      obtain ⟨m, hm, hne⟩ := hhead
      have hnpos : 0 < n := lt_of_le_of_ne hn fun h0 => hne (.inl h0.symm)
      have hmpos : 0 < m := lt_of_le_of_ne (htail m hm) fun h0 => hne (.inr h0.symm)
      have hspos : 0 < ns.sum := hmpos.trans_le (List.single_le_sum htail m hm)
      exact (smoothedMean_add_lt hε hnpos hspos).trans_le
        (add_le_add_right (smoothedMean_sum_le hε htail) _)
    · exact (smoothedMean_add_le hε hn hsum).trans_lt (add_lt_add_right (ih htail hpair) _)

end NemoRL.Lib
