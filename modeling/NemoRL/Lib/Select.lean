import Mathlib.Data.List.Sort
import Mathlib.Data.List.Nodup
import Mathlib.Data.List.Perm.Basic
import NemoRL.Lib.Except

/-!
# Selecting and deleting list positions

Programs that keep several lists in step address them by position: they collect
the positions at which a test holds, read the elements there, and delete the
positions from the highest down, so that a deletion does not move the positions
still to be deleted. This file relates those programs to `filter`, `take` and
`Sublist`.

A position list is handled through the pairs it was read off: `l.zipIdx` pairs
every element with its position, and a sublist of it carries both the positions
and the elements found there.

## Main definitions

* `select l is` — the elements of `l` at the positions `is`, in that order.
* `indicesWhere q l` — the positions at which `q` holds, in increasing order.
* `popIndices l is` — delete the positions `is`, highest first.
* `dropIndices l is` — the elements of `l` at the positions outside `is`.
* `popFirst q l`, `popLast q l` — remove the first or the last element with `q`.
-/

namespace NemoRL.Lib

variable {α β : Type*}

/-- The elements at the given positions, in the given order. A position outside
the list selects nothing. -/
def select (l : List α) (is : List ℕ) : List α := is.filterMap fun i => l[i]?

/-- The positions at which `q` holds, in increasing order. -/
def indicesWhere (q : α → Bool) (l : List α) : List ℕ :=
  (l.zipIdx.filter fun p => q p.1).map Prod.snd

/-- Delete positions one after another, the highest first. -/
def popIndices (l : List α) (is : List ℕ) : List α :=
  (is.insertionSort (· ≥ ·)).foldl List.eraseIdx l

/-- The elements at the positions outside `is`, in order. -/
def dropIndices (l : List α) (is : List ℕ) : List α :=
  (l.zipIdx.filter fun p => p.2 ∉ is).map Prod.fst

/-- Remove the first element that satisfies `q` and return it with the others. -/
def popFirst (q : α → Bool) : List α → Option (α × List α)
  | [] => none
  | x :: xs => if q x then some (x, xs) else (popFirst q xs).map fun p => (p.1, x :: p.2)

/-- Remove the last element that satisfies `q` and return it with the others. -/
def popLast (q : α → Bool) (l : List α) : Option (α × List α) :=
  (popFirst q l.reverse).map fun p => (p.1, p.2.reverse)

/-! ## Selection -/

@[simp] theorem select_nil (l : List α) : select l [] = [] := rfl

theorem select_append (l : List α) (is js : List ℕ) :
    select l (is ++ js) = select l is ++ select l js :=
  List.filterMap_append

theorem select_cons_of_lt {l : List α} {i : ℕ} (h : i < l.length) (is : List ℕ) :
    select l (i :: is) = l[i] :: select l is := by
  simp [select, h]

theorem select_flatten (l : List α) (iss : List (List ℕ)) :
    select l iss.flatten = (iss.map (select l)).flatten := by
  induction iss with
  | nil => rfl
  | cons is iss ih => rw [List.flatten_cons, select_append, ih]; rfl

theorem select_map (f : α → β) (l : List α) (is : List ℕ) :
    select (l.map f) is = (select l is).map f := by
  simp only [select, List.getElem?_map, List.map_filterMap]

theorem length_select {l : List α} {is : List ℕ} (h : ∀ i ∈ is, i < l.length) :
    (select l is).length = is.length := by
  induction is with
  | nil => rfl
  | cons i is ih =>
    rw [select_cons_of_lt (h i (by simp))]
    simp [ih fun j hj => h j (by simp [hj])]

theorem getElem?_select {l : List α} {is : List ℕ} (h : ∀ i ∈ is, i < l.length) (j : ℕ) :
    (select l is)[j]? = (is[j]?).bind fun i => l[i]? := by
  induction is generalizing j with
  | nil => simp
  | cons i is ih =>
    rw [select_cons_of_lt (h i (by simp))]
    cases j with
    | zero => simp [h i (by simp)]
    | succ j => simpa using ih (fun k hk => h k (by simp [hk])) j

theorem select_cons (l : List α) (i : ℕ) (is : List ℕ) :
    select l (i :: is) = l[i]?.toList ++ select l is := by
  cases h : l[i]? <;> simp [select, h]

theorem select_zip {l : List α} {l' : List β} (hlen : l.length = l'.length) (is : List ℕ) :
    (select l is).zip (select l' is) = select (l.zip l') is := by
  induction is with
  | nil => rfl
  | cons i is ih =>
    rw [select_cons, select_cons, select_cons, ← ih]
    by_cases hi : i < l.length
    · have hi' : i < l'.length := hlen ▸ hi
      simp [hi, hi']
    · have hi' : ¬ i < l'.length := hlen ▸ hi
      simp [hi, hi']

/-- Selecting at selected positions is selecting once. -/
theorem select_select {l : List α} {is js : List ℕ} (h : ∀ i ∈ is, i < l.length) :
    select (select l is) js = select l (select is js) := by
  induction js with
  | nil => rfl
  | cons j js ih =>
    rw [select_cons, select_cons is, select_append, ih, getElem?_select h]
    congr 1
    cases hi : is[j]? with
    | none => rfl
    | some i => simp [select_cons]

/-- The positions of a whole list select the list. -/
@[simp] theorem select_range (l : List α) : select l (List.range l.length) = l := by
  apply List.ext_getElem?
  intro j
  rw [getElem?_select (by simp)]
  by_cases hj : j < l.length
  · simp [hj]
  · simp [hj]

theorem select_range' (l : List α) (s n : ℕ) :
    select l (List.range' s n) = (l.drop s).take n := by
  induction n generalizing s with
  | zero => simp
  | succ n ih =>
    by_cases hs : s < l.length
    · rw [List.range'_succ, select_cons_of_lt hs, ih, List.drop_eq_getElem_cons hs,
        List.take_succ_cons]
    · have hdrop : ∀ t, s ≤ t → l.drop t = [] := fun t ht => by simp; omega
      rw [List.range'_succ, hdrop s le_rfl]
      have : l[s]? = none := by simp; omega
      simpa [select, this, hdrop (s + 1) (by omega)] using ih (s + 1)

/-- Selecting in a part of a list is selecting at shifted positions. -/
theorem select_drop_take {l : List α} {is : List ℕ} {s n : ℕ} (h : ∀ i ∈ is, i < n) :
    select ((l.drop s).take n) is = select l (is.map (· + s)) := by
  rw [select, select, List.filterMap_map]
  apply List.filterMap_congr
  intro i hi
  rw [List.getElem?_take_of_lt (h i hi), List.getElem?_drop, Function.comp_apply, Nat.add_comm]

theorem select_eq_map_getD {l : List α} {is : List ℕ} (h : ∀ i ∈ is, i < l.length) (d : α) :
    select l is = is.map fun i => l.getD i d := by
  induction is with
  | nil => rfl
  | cons i is ih =>
    have hi := h i (by simp)
    rw [select_cons_of_lt hi, ih fun j hj => h j (by simp [hj]), List.map_cons,
      List.getD_eq_getElem?_getD, List.getElem?_eq_getElem hi]
    rfl

theorem select_map_snd {l : List α} {z : List (α × ℕ)} (hz : ∀ p ∈ z, l[p.2]? = some p.1) :
    select l (z.map Prod.snd) = z.map Prod.fst := by
  induction z with
  | nil => rfl
  | cons p z ih =>
    have hp : l[p.2]? = some p.1 := hz p (by simp)
    have := ih fun q hq => hz q (by simp [hq])
    simpa [select, hp] using this

/-- The pairs of a sublist of `zipIdx` name their own elements. -/
theorem getElem?_of_sublist_zipIdx {l : List α} {z : List (α × ℕ)} (hz : z.Sublist l.zipIdx) :
    ∀ p ∈ z, l[p.2]? = some p.1 :=
  fun _ hp => List.mem_zipIdx_iff_getElem?.mp (hz.subset hp)

theorem nodup_map_snd {l : List α} {z : List (α × ℕ)} (hz : z.Sublist l.zipIdx) :
    (z.map Prod.snd).Nodup := by
  refine (hz.map Prod.snd).nodup ?_
  rw [List.zipIdx_map_snd]
  exact List.nodup_range'

/-- The first `n` elements that satisfy `q`, read by their positions. -/
theorem select_take_indicesWhere (q : α → Bool) (l : List α) (n : ℕ) :
    select l ((indicesWhere q l).take n) = (l.filter q).take n := by
  have hz : ((l.zipIdx.filter fun p => q p.1).take n).Sublist l.zipIdx :=
    (List.take_sublist _ _).trans List.filter_sublist
  calc
    select l ((indicesWhere q l).take n)
        = select l (((l.zipIdx.filter fun p => q p.1).take n).map Prod.snd) := by
      rw [indicesWhere, List.map_take]
    _ = ((l.zipIdx.filter fun p => q p.1).take n).map Prod.fst :=
      select_map_snd (getElem?_of_sublist_zipIdx hz)
    _ = ((l.zipIdx.map Prod.fst).filter q).take n := by
      rw [List.map_take, List.filter_map]; rfl
    _ = (l.filter q).take n := by rw [List.zipIdx_map_fst]

/-- Selecting commutes with mapping. -/
theorem select_mapM {ε : Type*} {f : α → Except ε β} {l : List α} {l' : List β}
    (h : l.mapM f = .ok l') (is : List ℕ) : (select l is).mapM f = .ok (select l' is) := by
  have hall := mapM_eq_ok.mp h
  rw [mapM_eq_ok]
  induction is with
  | nil => exact .nil
  | cons i is ih =>
    rw [select_cons, select_cons]
    refine List.rel_append ?_ ih
    cases hi : l[i]? with
    | none =>
      have hi' : l'[i]? = none := by
        rw [List.getElem?_eq_none_iff] at hi ⊢
        rwa [← hall.length_eq]
      rw [hi']
      exact .nil
    | some a =>
      obtain ⟨hlt, rfl⟩ := List.getElem?_eq_some_iff.mp hi
      have hlt' : i < l'.length := hall.length_eq ▸ hlt
      rw [List.getElem?_eq_getElem hlt']
      exact .cons ((List.forall₂_iff_get.mp hall).2 i hlt hlt') .nil

/-! ## Positions at which a test holds -/

theorem select_indicesWhere (q : α → Bool) (l : List α) :
    select l (indicesWhere q l) = l.filter q := by
  have htake := select_take_indicesWhere q l l.length
  rwa [List.take_of_length_le (by simpa [indicesWhere] using List.length_filter_le _ l.zipIdx),
    List.take_of_length_le (List.length_filter_le _ _)] at htake

theorem indicesWhere_map (q : β → Bool) (f : α → β) (l : List α) :
    indicesWhere q (l.map f) = indicesWhere (fun a => q (f a)) l := by
  simp only [indicesWhere, List.zipIdx_map, List.filter_map, List.map_map]
  rfl

theorem length_indicesWhere (q : α → Bool) (l : List α) :
    (indicesWhere q l).length = (l.filter q).length := by
  rw [indicesWhere, List.length_map, ← List.length_map (f := Prod.fst),
    show (l.zipIdx.filter fun p => q p.1).map Prod.fst = (l.zipIdx.map Prod.fst).filter q by
      rw [List.filter_map]; rfl, List.zipIdx_map_fst]

/-- Testing the selected positions again intersects the two tests. -/
theorem filter_indicesWhere (q r : α → Bool) (l : List α) :
    ((indicesWhere q l).filter fun i => (l[i]?.map r).getD false) =
      indicesWhere (fun a => q a && r a) l := by
  simp only [indicesWhere, List.filter_map, List.filter_filter]
  congr 1
  apply List.filter_congr
  intro p hp
  simp [List.mem_zipIdx_iff_getElem?.mp hp, Bool.and_comm]

/-! ## Deletion -/

theorem dropIndices_sublist (l : List α) (is : List ℕ) : (dropIndices l is).Sublist l := by
  have h := (List.filter_sublist (l := l.zipIdx) (p := fun p => p.2 ∉ is)).map Prod.fst
  rwa [List.zipIdx_map_fst] at h

theorem dropIndices_nil (l : List α) : dropIndices l [] = l := by
  simp [dropIndices, List.zipIdx_map_fst]

/-- Erasing the highest position first leaves the lower ones where they were. -/
theorem dropIndices_eraseIdx (l : List α) {d : ℕ} {ds : List ℕ} (h : ∀ i ∈ ds, i < d) :
    dropIndices (l.eraseIdx d) ds = dropIndices l (d :: ds) := by
  by_cases hd : d < l.length
  · have hlen : (l.take d).length = d := by simp; omega
    have hlow : ∀ p ∈ (l.take d).zipIdx, p.2 ≠ d := by
      intro p hp
      have := List.snd_lt_of_mem_zipIdx hp
      omega
    have hhigh : ∀ k, d ≤ k → ∀ p ∈ (l.drop (d + 1)).zipIdx k, p.2 ∉ ds := by
      intro k hk p hp hmem
      have := List.le_snd_of_mem_zipIdx hp
      have := h _ hmem
      omega
    have hne : ∀ p ∈ (l.drop (d + 1)).zipIdx (d + 1), p.2 ≠ d := by
      intro p hp
      have := List.le_snd_of_mem_zipIdx hp
      omega
    have hl : l = l.take d ++ l[d] :: l.drop (d + 1) := by
      rw [← List.drop_eq_getElem_cons hd, List.take_append_drop]
    have herase : l.eraseIdx d = l.take d ++ l.drop (d + 1) := List.eraseIdx_eq_take_drop_succ ..
    rw [herase]
    conv_rhs => rw [hl]
    simp only [dropIndices, List.zipIdx_append, List.filter_append, List.map_append,
      List.zipIdx_cons, hlen, Nat.zero_add]
    congr 1
    · congr 1
      apply List.filter_congr
      intro p hp
      simp [hlow p hp]
    · rw [List.filter_cons_of_neg (by simp)]
      have h1 : ((l.drop (d + 1)).zipIdx d).filter (fun p => p.2 ∉ ds) =
          (l.drop (d + 1)).zipIdx d :=
        List.filter_eq_self.mpr fun p hp => by simpa using hhigh d le_rfl p hp
      have h2 : ((l.drop (d + 1)).zipIdx (d + 1)).filter (fun p => p.2 ∉ d :: ds) =
          (l.drop (d + 1)).zipIdx (d + 1) :=
        List.filter_eq_self.mpr fun p hp => by
          simpa [hne p hp] using hhigh (d + 1) (by omega) p hp
      rw [h1, h2, List.zipIdx_map_fst, List.zipIdx_map_fst]
  · rw [List.eraseIdx_of_length_le (by omega), dropIndices, dropIndices]
    congr 1
    apply List.filter_congr
    intro p hp
    have := List.snd_lt_of_mem_zipIdx hp
    have hpd : p.2 ≠ d := by omega
    simp [hpd]

private theorem foldl_eraseIdx (l : List α) {ds : List ℕ} (h : ds.Pairwise (· > ·)) :
    ds.foldl List.eraseIdx l = dropIndices l ds := by
  induction ds generalizing l with
  | nil => exact (dropIndices_nil l).symm
  | cons d ds ih =>
    obtain ⟨hd, hds⟩ := List.pairwise_cons.mp h
    rw [List.foldl_cons, ih _ hds, dropIndices_eraseIdx l hd]

/-- Deleting distinct positions from the highest down keeps the elements at the
other positions. -/
theorem popIndices_eq_dropIndices (l : List α) {is : List ℕ} (h : is.Nodup) :
    popIndices l is = dropIndices l is := by
  have hperm := List.perm_insertionSort (· ≥ ·) is
  have hsorted : (is.insertionSort (· ≥ ·)).Pairwise (· > ·) := by
    have hge := List.pairwise_insertionSort (· ≥ ·) is
    have hnd : (is.insertionSort (· ≥ ·)).Nodup := hperm.nodup_iff.mpr h
    exact (hge.and hnd).imp fun hab => lt_of_le_of_ne hab.1 (Ne.symm hab.2)
  rw [popIndices, foldl_eraseIdx l hsorted, dropIndices, dropIndices]
  congr 1
  apply List.filter_congr
  intro p _
  simp [hperm.mem_iff]

theorem popIndices_map (f : α → β) (l : List α) (is : List ℕ) :
    popIndices (l.map f) is = (popIndices l is).map f := by
  have h : ∀ (ds : List ℕ) (l : List α),
      ds.foldl List.eraseIdx (l.map f) = (ds.foldl List.eraseIdx l).map f := by
    intro ds
    induction ds with
    | nil => intro l; rfl
    | cons d ds ih => intro l; simp only [List.foldl_cons, List.eraseIdx_map, ih]
  exact h _ l

/-- Deleting the positions at which `q` holds filters by its negation. -/
theorem dropIndices_indicesWhere (q : α → Bool) (l : List α) :
    dropIndices l (indicesWhere q l) = l.filter fun a => !q a := by
  have hmem : ∀ p ∈ l.zipIdx, (p.2 ∉ indicesWhere q l ↔ (!q p.1) = true) := by
    intro p hp
    have hget := List.mem_zipIdx_iff_getElem?.mp hp
    simp only [indicesWhere, List.mem_map, List.mem_filter, Bool.not_eq_true', not_exists, not_and]
    constructor
    · intro h
      cases hq : q p.1 with
      | false => rfl
      | true => exact (h p ⟨hp, hq⟩ rfl).elim
    · rintro hq p' ⟨hp', hq'⟩ heq
      have hget' := List.mem_zipIdx_iff_getElem?.mp hp'
      rw [heq, hget] at hget'
      simp [Option.some.inj hget', hq'] at hq
  calc
    dropIndices l (indicesWhere q l) = (l.zipIdx.filter fun p => !q p.1).map Prod.fst := by
      rw [dropIndices]
      congr 1
      exact List.filter_congr fun p hp => by
        rw [Bool.eq_iff_iff, decide_eq_true_iff, hmem p hp]
    _ = (l.zipIdx.map Prod.fst).filter fun a => !q a := by rw [List.filter_map]; rfl
    _ = l.filter fun a => !q a := by rw [List.zipIdx_map_fst]

/-- Filtering by the positions of a sublist finds the sublist. -/
theorem filter_mem_map_snd {z z' : List (α × ℕ)} (hz : z'.Sublist z)
    (hnd : (z.map Prod.snd).Nodup) :
    (z.filter fun p => p.2 ∈ z'.map Prod.snd) = z' := by
  induction hz with
  | slnil => rfl
  | @cons z' z p hz ih =>
    rw [List.map_cons, List.nodup_cons] at hnd
    have hp : p.2 ∉ z'.map Prod.snd := fun h => hnd.1 ((hz.map Prod.snd).subset h)
    rw [List.filter_cons_of_neg (by simpa using hp)]
    exact ih hnd.2
  | @cons_cons z' z p hz ih =>
    rw [List.map_cons, List.nodup_cons] at hnd
    rw [List.filter_cons_of_pos (by simp)]
    have hcongr : (z.filter fun q => q.2 ∈ (p :: z').map Prod.snd) =
        z.filter fun q => q.2 ∈ z'.map Prod.snd := by
      apply List.filter_congr
      intro q hq
      have hne : q.2 ≠ p.2 := fun h => hnd.1 (h ▸ List.mem_map_of_mem hq)
      simp [hne]
    rw [hcongr, ih hnd.2]

/-- What is deleted and what is kept together make up the list. -/
theorem dropIndices_append_perm {l : List α} {z : List (α × ℕ)} (hz : z.Sublist l.zipIdx) :
    (dropIndices l (z.map Prod.snd) ++ z.map Prod.fst).Perm l := by
  have hnd : (l.zipIdx.map Prod.snd).Nodup := by
    rw [List.zipIdx_map_snd]; exact List.nodup_range'
  have hkept := List.filter_append_perm (fun p : α × ℕ => p.2 ∉ z.map Prod.snd) l.zipIdx
  have hdel : (l.zipIdx.filter fun p => !decide (p.2 ∉ z.map Prod.snd)) = z := by
    rw [← filter_mem_map_snd hz hnd]
    exact List.filter_congr fun _ _ => by simp [filter_mem_map_snd hz hnd]
  rw [hdel] at hkept
  have := hkept.map Prod.fst
  rwa [List.map_append, List.zipIdx_map_fst] at this

/-- The first `n` positions at which `q` holds, as pairs. -/
theorem take_indicesWhere (q : α → Bool) (l : List α) (n : ℕ) :
    (indicesWhere q l).take n = ((l.zipIdx.filter fun p => q p.1).take n).map Prod.snd := by
  rw [indicesWhere, List.map_take]

theorem nodup_take_indicesWhere (q : α → Bool) (l : List α) (n : ℕ) :
    ((indicesWhere q l).take n).Nodup := by
  rw [take_indicesWhere]
  exact nodup_map_snd ((List.take_sublist _ _).trans List.filter_sublist)

theorem nodup_indicesWhere (q : α → Bool) (l : List α) : (indicesWhere q l).Nodup :=
  nodup_map_snd List.filter_sublist

/-- Deleting the first `n` elements that satisfy `q` loses exactly those. -/
theorem dropIndices_take_perm (q : α → Bool) (l : List α) (n : ℕ) :
    (dropIndices l ((indicesWhere q l).take n) ++ (l.filter q).take n).Perm l := by
  have hz : ((l.zipIdx.filter fun p => q p.1).take n).Sublist l.zipIdx :=
    (List.take_sublist _ _).trans List.filter_sublist
  rw [← select_take_indicesWhere, take_indicesWhere, select_map_snd (getElem?_of_sublist_zipIdx hz)]
  exact dropIndices_append_perm hz

/-! ## Selection at increasing positions -/

theorem select_sublist {l : List α} {is : List ℕ} (h : is.Sublist (List.range l.length)) :
    (select l is).Sublist l := by
  have := h.filterMap fun i => l[i]?
  rwa [show (List.range l.length).filterMap (fun i => l[i]?) = l from select_range l] at this

theorem indicesWhere_sublist_range (q : α → Bool) (l : List α) :
    (indicesWhere q l).Sublist (List.range l.length) := by
  have := (List.filter_sublist (p := fun p => q p.1) (l := l.zipIdx)).map Prod.snd
  rwa [List.zipIdx_map_snd, ← List.range_eq_range'] at this

/-- Distinct positions, once sorted, are a sublist of the range they lie in. -/
theorem insertionSort_sublist_range {is : List ℕ} {n : ℕ} (hnd : is.Nodup)
    (h : ∀ i ∈ is, i < n) : (is.insertionSort (· ≤ ·)).Sublist (List.range n) := by
  have hperm := List.perm_insertionSort (· ≤ ·) is
  have hsub : (is.insertionSort (· ≤ ·)).Subperm (List.range n) := by
    refine List.subperm_of_subset (hperm.nodup_iff.mpr hnd) fun i hi => ?_
    exact List.mem_range.mpr (h i (hperm.mem_iff.mp hi))
  exact List.sublist_of_subperm_of_pairwise hsub (List.pairwise_insertionSort _ _)
    List.pairwise_le_range

/-! ## Popping an element -/

theorem popFirst_eq_some {q : α → Bool} {l l' : List α} {x : α}
    (h : popFirst q l = some (x, l')) : q x = true ∧ (x :: l').Perm l := by
  induction l generalizing l' with
  | nil => exact nomatch h
  | cons y ys ih =>
    unfold popFirst at h
    split at h
    case isTrue hy =>
      obtain ⟨rfl, rfl⟩ := Prod.mk.inj (Option.some.inj h)
      exact ⟨hy, .refl _⟩
    case isFalse hy =>
      obtain ⟨⟨x', ys'⟩, hpop, heq⟩ := Option.map_eq_some_iff.mp h
      obtain ⟨rfl, rfl⟩ := Prod.mk.inj heq
      obtain ⟨hq, hperm⟩ := ih hpop
      exact ⟨hq, (List.Perm.swap y x' ys').trans (hperm.cons y)⟩

theorem length_of_popFirst {q : α → Bool} {l l' : List α} {x : α}
    (h : popFirst q l = some (x, l')) : l'.length < l.length := by
  have := (popFirst_eq_some h).2.length_eq
  simp only [List.length_cons] at this
  omega

theorem popFirst_ne_none {q : α → Bool} {l : List α} {x : α} (hx : x ∈ l) (hq : q x = true) :
    popFirst q l ≠ none := by
  induction l with
  | nil => exact nomatch hx
  | cons y ys ih =>
    unfold popFirst
    split
    case isTrue => simp
    case isFalse hy =>
      have hne : x ≠ y := fun h => hy (h ▸ hq)
      have := ih ((List.mem_cons.mp hx).resolve_left hne)
      simpa [Option.map_eq_none_iff] using this

theorem popLast_eq_some {q : α → Bool} {l l' : List α} {x : α}
    (h : popLast q l = some (x, l')) : q x = true ∧ (x :: l').Perm l := by
  obtain ⟨⟨x', l''⟩, hpop, heq⟩ := Option.map_eq_some_iff.mp h
  obtain ⟨rfl, rfl⟩ := Prod.mk.inj heq
  obtain ⟨hq, hperm⟩ := popFirst_eq_some hpop
  exact ⟨hq, ((List.reverse_perm l'').cons x').trans (hperm.trans (List.reverse_perm l))⟩

theorem popLast_ne_none {q : α → Bool} {l : List α} {x : α} (hx : x ∈ l) (hq : q x = true) :
    popLast q l ≠ none := by
  have := popFirst_ne_none (l := l.reverse) (List.mem_reverse.mpr hx) hq
  simpa [popLast, Option.map_eq_none_iff] using this

end NemoRL.Lib
