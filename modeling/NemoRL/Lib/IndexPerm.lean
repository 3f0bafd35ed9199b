import NemoRL.Lib.Select

/-!
# Permutations given as index lists

A list `u` that is a permutation of `range n` reorders lists of length `n` by
gathering: place `j` of `select l u` holds element `u[j]`. Gathering composes, the
inverse of `u` undoes it, and gathering twice by `u` is the identity exactly when `u`
is its own inverse.

## Main definitions

* `SelfInverse u` — the element sent from `i` to `j` changes places with the one at `j`.
* `setAll l ps` — write values at positions, one after another.

## Main results

* `select_eq_of_nodup` — gathering moves no element only by the identity.
* `select_self_iff` — gathering twice by `u` is the identity iff `u` is its own inverse.
* `select_setAll` — scattering positions computes the inverse.
-/

namespace NemoRL.Lib

variable {α : Type*} {u v : List ℕ} {n : ℕ}

theorem lt_of_perm_range (h : u.Perm (List.range n)) : ∀ i ∈ u, i < n := fun _ hi =>
  List.mem_range.mp (h.mem_iff.mp hi)

theorem length_of_perm_range (h : u.Perm (List.range n)) : u.length = n := by
  rw [h.length_eq, List.length_range]

/-- Gathering from the identity gives the positions. -/
theorem select_of_range (h : ∀ i ∈ u, i < n) : select (List.range n) u = u := by
  rw [select_eq_map_getD (by simpa using h) 0]
  conv_rhs => rw [← List.map_id u]
  apply List.map_congr_left
  intro i hi
  simp [h i hi]

/-- Gathering all positions in order changes nothing. -/
theorem select_range_of_length {l : List α} (h : l.length = n) : select l (List.range n) = l := by
  rw [← h]
  exact select_range l

/-- Gathering by a permutation permutes. -/
theorem select_perm {l : List α} (h : u.Perm (List.range l.length)) : (select l u).Perm l := by
  have := h.filterMap fun i => l[i]?
  rwa [show (List.range l.length).filterMap (fun i => l[i]?) = l from select_range l] at this

/-- Two gathers from distinct elements that agree gather the same positions. -/
theorem select_injective {l : List α} (hl : l.Nodup) (hu : ∀ i ∈ u, i < l.length)
    (hv : ∀ i ∈ v, i < l.length) (h : select l u = select l v) : u = v := by
  induction u generalizing v with
  | nil =>
    have := length_select hv
    rw [← h] at this
    exact (List.length_eq_zero_iff.mp this.symm).symm
  | cons i u ih =>
    cases v with
    | nil =>
      rw [select_cons_of_lt (hu i (by simp))] at h
      exact nomatch h
    | cons j v =>
      rw [select_cons_of_lt (hu i (by simp)), select_cons_of_lt (hv j (by simp))] at h
      obtain ⟨hij, hrest⟩ := List.cons.inj h
      rw [(List.Nodup.getElem_inj_iff hl).mp hij,
        ih (fun k hk => hu k (by simp [hk])) (fun k hk => hv k (by simp [hk])) hrest]

/-- Gathering distinct elements leaves the list as it is only by the identity. -/
theorem select_eq_of_nodup {l : List α} (hl : l.Nodup) (hu : ∀ i ∈ u, i < l.length) :
    select l u = l ↔ u = List.range l.length := by
  constructor
  · intro h
    exact select_injective hl hu (by simp) (h.trans (select_range l).symm)
  · rintro rfl
    exact select_range l

/-- The element that place `i` receives from place `j` changes places with the one that
place `j` receives. -/
def SelfInverse (u : List ℕ) : Prop := ∀ i j : ℕ, u[i]? = some j → u[j]? = some i

/-- Gathering twice is the identity exactly for a permutation that is its own inverse. -/
theorem select_self_iff (h : u.Perm (List.range n)) :
    select u u = List.range n ↔ SelfInverse u := by
  have hlen := length_of_perm_range h
  have hlt : ∀ i ∈ u, i < u.length := by
    rw [hlen]
    exact lt_of_perm_range h
  constructor
  · intro hself i j hij
    have hi : i < n := by
      rw [← hlen]
      exact (List.getElem?_eq_some_iff.mp hij).1
    have := getElem?_select hlt i
    rw [hself, hij] at this
    simpa [hi] using this.symm
  · intro hself
    apply List.ext_getElem?
    intro i
    rw [getElem?_select hlt]
    cases hij : u[i]? with
    | none =>
      have : n ≤ i := by
        rw [← hlen]
        exact List.getElem?_eq_none_iff.mp hij
      simp [this]
    | some j =>
      have hi : i < n := by
        rw [← hlen]
        exact (List.getElem?_eq_some_iff.mp hij).1
      simp [hself i j hij, hi]

/-! ## Scattering -/

/-- Write values at positions, one after another. -/
def setAll (l : List α) (ps : List (ℕ × α)) : List α := ps.foldl (fun l p => l.set p.1 p.2) l

@[simp] theorem length_setAll (l : List α) (ps : List (ℕ × α)) :
    (setAll l ps).length = l.length := by
  induction ps generalizing l with
  | nil => rfl
  | cons p ps ih => exact (ih (l.set p.1 p.2)).trans List.length_set

/-- A position that is not written keeps its value. -/
theorem getElem?_setAll_of_notMem {l : List α} {ps : List (ℕ × α)} {i : ℕ}
    (h : i ∉ ps.map Prod.fst) : (setAll l ps)[i]? = l[i]? := by
  induction ps generalizing l with
  | nil => rfl
  | cons p ps ih =>
    rw [List.map_cons, List.mem_cons, not_or] at h
    exact (ih (l := l.set p.1 p.2) h.2).trans (List.getElem?_set_ne (Ne.symm h.1))

/-- A position that is written once holds its value. -/
theorem getElem?_setAll {l : List α} {ps : List (ℕ × α)} {p : ℕ × α}
    (hnd : (ps.map Prod.fst).Nodup) (hp : p ∈ ps) (hlt : p.1 < l.length) :
    (setAll l ps)[p.1]? = some p.2 := by
  induction ps generalizing l with
  | nil => exact nomatch hp
  | cons q ps ih =>
    rw [List.map_cons, List.nodup_cons] at hnd
    rcases List.mem_cons.mp hp with rfl | hp
    · refine (getElem?_setAll_of_notMem (l := l.set p.1 p.2) hnd.1).trans ?_
      exact List.getElem?_set_self hlt
    · exact ih (l := l.set q.1 q.2) hnd.2 hp (by simpa using hlt)

/-- Scattering the positions of a permutation computes its inverse. -/
theorem select_setAll (h : u.Perm (List.range n)) (d : ℕ) :
    select (setAll (List.replicate n d) u.zipIdx) u = List.range n := by
  have hlen := length_of_perm_range h
  have hlt := lt_of_perm_range h
  have hnd : (u.zipIdx.map Prod.fst).Nodup := by
    rw [List.zipIdx_map_fst]
    exact h.nodup_iff.mpr List.nodup_range
  apply List.ext_getElem?
  intro j
  rw [getElem?_select (by simpa using hlt)]
  cases hj : u[j]? with
  | none =>
    have : n ≤ j := by
      rw [← hlen]
      exact List.getElem?_eq_none_iff.mp hj
    simp [this]
  | some i =>
    have hjn : j < n := by
      rw [← hlen]
      exact (List.getElem?_eq_some_iff.mp hj).1
    have hmem : (i, j) ∈ u.zipIdx := List.mem_zipIdx_iff_getElem?.mpr hj
    have hi : i < n := hlt i (List.mem_of_getElem? hj)
    simpa [hjn] using getElem?_setAll (l := List.replicate n d) hnd hmem (by simpa using hi)

end NemoRL.Lib
