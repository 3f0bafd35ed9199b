import Mathlib.Data.List.Perm.Basic
import Mathlib.Order.Lattice

/-!
# The largest items of a list

The `k` items of a list with the largest keys, the largest first. To find them among the items of
several lists it is enough to look at the `k` largest of each list.

## Main definitions

* `sortDesc` — a list by decreasing key.
* `topK` — its first items.

## Main results

* `topK_append`, `topK_flatMap` — the largest of several lists, by the largest of each.
* `map_topK` — the largest items after a map that keeps the keys.
* `mem_drop_iff_le_countP` — what is behind the first items, by what comes before it.
-/

namespace NemoRL.Lib

variable {α β K : Type} [LinearOrder K]

/-- A list by decreasing key. -/
def sortDesc (key : α → K) (l : List α) : List α := l.mergeSort fun x y => key y ≤ key x

/-- The `k` items with the largest keys, the largest first. -/
def topK (key : α → K) (k : ℕ) (l : List α) : List α := (sortDesc key l).take k

variable {key : α → K} {k : ℕ} {l l' : List α}

theorem before_trans (key : α → K) (a b c : α) (hab : decide (key b ≤ key a))
    (hbc : decide (key c ≤ key b)) : decide (key c ≤ key a) := by
  rw [decide_eq_true_eq] at hab hbc ⊢
  exact hbc.trans hab

theorem before_total (key : α → K) (a b : α) :
    (decide (key b ≤ key a) || decide (key a ≤ key b)) = true := by
  simpa using le_total (key b) (key a)

theorem sortDesc_perm (key : α → K) (l : List α) : (sortDesc key l).Perm l :=
  List.mergeSort_perm _ _

theorem length_sortDesc (key : α → K) (l : List α) : (sortDesc key l).length = l.length :=
  (sortDesc_perm key l).length_eq

theorem pairwise_sortDesc (key : α → K) (l : List α) :
    (sortDesc key l).Pairwise fun x y => key y ≤ key x := by
  simpa [sortDesc] using
    List.pairwise_mergeSort (before_trans key) (before_total key) l

theorem sortDesc_of_pairwise (h : l.Pairwise fun x y => key y ≤ key x) : sortDesc key l = l :=
  List.mergeSort_of_pairwise (h.imp fun hle => decide_eq_true hle)

/-- Of distinct keys there is one order. -/
theorem sortDesc_eq_of_perm (hinj : ∀ x ∈ l, ∀ y ∈ l, key x = key y → x = y)
    (hperm : l'.Perm l) (hsorted : l'.Pairwise fun x y => key y ≤ key x) :
    l' = sortDesc key l := by
  refine List.Perm.eq_of_pairwise ?_ hsorted (pairwise_sortDesc key l)
    (hperm.trans (sortDesc_perm key l).symm)
  intro x y hx hy hle hle'
  exact hinj x (hperm.subset hx) y ((sortDesc_perm key l).subset hy) (le_antisymm hle' hle)

/-- The first items of two sorted lists merged are found among the first items of each. -/
theorem take_merge (le : α → α → Bool) {k i j : ℕ} (hi : k ≤ i) (hj : k ≤ j) (xs ys : List α) :
    (List.merge (xs.take i) (ys.take j) le).take k = (List.merge xs ys le).take k := by
  induction k generalizing i j xs ys with
  | zero => rw [List.take_zero, List.take_zero]
  | succ k ih =>
    obtain ⟨i, rfl⟩ : ∃ i', i = i' + 1 := ⟨i - 1, by omega⟩
    obtain ⟨j, rfl⟩ : ∃ j', j = j' + 1 := ⟨j - 1, by omega⟩
    cases xs with
    | nil => rw [List.take_nil, List.nil_merge, List.nil_merge, List.take_take,
      Nat.min_eq_left hj]
    | cons x xs =>
      cases ys with
      | nil =>
        rw [List.take_nil, List.merge_right, List.merge_right, List.take_take,
          Nat.min_eq_left hi]
      | cons y ys =>
        rw [List.take_succ_cons, List.take_succ_cons, List.cons_merge_cons,
          List.cons_merge_cons]
        split
        case isTrue =>
          have h := ih (i := i) (j := j + 1) (by omega) (by omega) xs (y :: ys)
          rw [List.take_succ_cons] at h
          rw [List.take_succ_cons, List.take_succ_cons, h]
        case isFalse =>
          have h := ih (i := i + 1) (j := j) (by omega) (by omega) (x :: xs) ys
          rw [List.take_succ_cons] at h
          rw [List.take_succ_cons, List.take_succ_cons, h]

theorem sortDesc_append (hinj : ∀ x ∈ l ++ l', ∀ y ∈ l ++ l', key x = key y → x = y) :
    sortDesc key (l ++ l') =
      List.merge (sortDesc key l) (sortDesc key l') fun x y => key y ≤ key x := by
  symm
  refine sortDesc_eq_of_perm hinj ?_ ?_
  · exact (List.merge_perm_append _).trans
      ((sortDesc_perm key l).append (sortDesc_perm key l'))
  · have h := List.pairwise_merge (before_trans key) (before_total key) (sortDesc key l)
      (sortDesc key l') ((pairwise_sortDesc key l).imp fun hle => decide_eq_true hle)
      ((pairwise_sortDesc key l').imp fun hle => decide_eq_true hle)
    exact h.imp fun hle => of_decide_eq_true hle

theorem length_topK (key : α → K) (k : ℕ) (l : List α) :
    (topK key k l).length = min k l.length := by
  rw [topK, List.length_take, length_sortDesc]

theorem topK_subset (key : α → K) (k : ℕ) (l : List α) : topK key k l ⊆ l := by
  intro x hx
  exact (sortDesc_perm key l).subset (List.mem_of_mem_take hx)

theorem topK_min_length (key : α → K) (k : ℕ) (l : List α) :
    topK key (min k l.length) l = topK key k l := by
  rw [topK, topK, ← length_sortDesc key l, ← List.take_take, List.take_length]

theorem sortDesc_topK (key : α → K) (k : ℕ) (l : List α) :
    sortDesc key (topK key k l) = topK key k l :=
  sortDesc_of_pairwise ((pairwise_sortDesc key l).sublist (List.take_sublist k _))

/-- The largest items of two lists are found among the largest of each. -/
theorem topK_append (k : ℕ) (hinj : ∀ x ∈ l ++ l', ∀ y ∈ l ++ l', key x = key y → x = y) :
    topK key k (topK key k l ++ topK key k l') = topK key k (l ++ l') := by
  have hsub : topK key k l ++ topK key k l' ⊆ l ++ l' := by
    intro x hx
    rw [List.mem_append] at hx ⊢
    exact hx.imp (fun h => topK_subset key k l h) fun h => topK_subset key k l' h
  have hinj' : ∀ x ∈ topK key k l ++ topK key k l', ∀ y ∈ topK key k l ++ topK key k l',
      key x = key y → x = y := fun x hx y hy => hinj x (hsub hx) y (hsub hy)
  rw [topK, sortDesc_append hinj', sortDesc_topK, sortDesc_topK, topK, topK,
    take_merge _ (Nat.le_refl k) (Nat.le_refl k), topK, sortDesc_append hinj]

/-- The largest items of several lists are found among the largest of each. -/
theorem topK_flatMap (k : ℕ) {ls : List (List α)}
    (hinj : ∀ x ∈ ls.flatten, ∀ y ∈ ls.flatten, key x = key y → x = y) :
    topK key k (ls.flatMap (topK key k)) = topK key k ls.flatten := by
  induction ls with
  | nil => rfl
  | cons l ls ih =>
    have hrest : ∀ x ∈ ls.flatten, ∀ y ∈ ls.flatten, key x = key y → x = y := by
      intro x hx y hy
      exact hinj x (List.mem_append_right l hx) y (List.mem_append_right l hy)
    have hsub : ls.flatMap (topK key k) ⊆ ls.flatten := by
      intro x hx
      obtain ⟨l', hl', hx⟩ := List.mem_flatMap.mp hx
      exact List.mem_flatten.mpr ⟨l', hl', topK_subset key k l' hx⟩
    have htop : topK key k l ++ ls.flatMap (topK key k) ⊆ l ++ ls.flatten := by
      intro x hx
      rw [List.mem_append] at hx ⊢
      exact hx.imp (fun h => topK_subset key k l h) fun h => hsub h
    have htwice : topK key k (topK key k l) = topK key k l := by
      conv => lhs; rw [topK, sortDesc_topK, topK, List.take_take, Nat.min_self]
      rfl
    rw [List.flatMap_cons, List.flatten_cons, ← topK_append k fun x hx y hy =>
      hinj x (htop hx) y (htop hy), ih hrest, htwice, topK_append k hinj]

/-- The largest items of a list whose items are mapped with their keys. -/
theorem map_topK (key : α → K) (key' : β → K) (k : ℕ) {f : α → β}
    (hkey : ∀ x ∈ l, key' (f x) = key x) :
    (topK key k l).map f = topK key' k (l.map f) := by
  rw [topK, topK, List.map_take]
  congr 1
  refine List.map_mergeSort ?_
  intro x hx y hy
  rw [hkey x hx, hkey y hy]

/-! ## Ranks -/

/-- An item of a strictly ordered list is behind the first `k` when `k` items come before it. -/
theorem mem_drop_iff_le_countP {before : α → α → Prop} [DecidableRel before]
    (hasymm : ∀ x y, before x y → ¬before y x) {l : List α} (h : l.Pairwise before) {x : α}
    (hx : x ∈ l) (k : ℕ) : x ∈ l.drop k ↔ k ≤ l.countP fun y => before y x := by
  have hirrefl : ∀ a, ¬before a a := fun a ha => hasymm a a ha ha
  induction l generalizing k with
  | nil => cases hx
  | cons a l ih =>
    obtain ⟨hfirst, hrest⟩ := List.pairwise_cons.mp h
    cases k with
    | zero => simpa using hx
    | succ k =>
      rw [List.drop_succ_cons]
      by_cases hxl : x ∈ l
      · have hcount : (a :: l).countP (fun y => before y x) = l.countP (fun y => before y x) + 1 :=
          List.countP_cons_of_pos (by simpa using hfirst x hxl)
        have hrank : x ∈ l.drop k ↔ k ≤ l.countP fun y => before y x := ih hrest hxl k
        rw [hrank, hcount]
        omega
      · obtain rfl : x = a := (List.mem_cons.mp hx).resolve_right hxl
        have hnone : l.countP (fun y => before y x) = 0 := by
          rw [List.countP_eq_zero]
          intro y hy
          simpa using hasymm x y (hfirst y hy)
        rw [List.countP_cons_of_neg (by simpa using hirrefl x), hnone]
        constructor
        · intro hdrop
          exact absurd (List.mem_of_mem_drop hdrop) hxl
        · intro hle
          omega

end NemoRL.Lib
