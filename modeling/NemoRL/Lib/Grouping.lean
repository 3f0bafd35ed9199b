import NemoRL.Lib.Dict
import Mathlib.Algebra.BigOperators.Group.Finset.Piecewise
import Mathlib.Data.Finset.Dedup
import Mathlib.Data.List.Perm.Basic

/-!
# Grouping the items of a list

The items of a list are put into a dictionary of lists, each under its key. A key has its place
where it is first met, and the items under it keep their order.

## Main definitions

* `groupBy` — the dictionary of the groups.

## Main results

* `lookup_groupBy` — the group of a key is what the list holds under it.
* `mem_groupBy` — no group is empty.
* `sum_groupBy` — a sum over the groups is a sum over the keys that occur.
* `flatMap_groupBy_perm` — each item is in one group.
-/

namespace NemoRL.Lib

variable {α β κ : Type} [DecidableEq κ]

/-- Setting a key keeps the keys, or appends a new one. -/
theorem keys_dictSet (d : List (κ × β)) (k : κ) (b : β) :
    (dictSet d k b).map Prod.fst =
      if k ∈ d.map Prod.fst then d.map Prod.fst else d.map Prod.fst ++ [k] := by
  induction d with
  | nil => rfl
  | cons p d ih =>
    obtain ⟨k', b'⟩ := p
    rw [dictSet]
    by_cases hk : k = k'
    · simp [hk]
    · by_cases hmem : k ∈ d.map Prod.fst
      · rw [if_pos hmem] at ih
        rw [if_neg hk, List.map_cons, ih, if_pos (by simp [hmem]), List.map_cons]
      · rw [if_neg hmem] at ih
        rw [if_neg hk, List.map_cons, ih, if_neg (by simp [hk, hmem]), List.map_cons,
          List.cons_append]

/-- Put one more item into its group. -/
def addToGroup (key : α → κ) (groups : List (κ × List α)) (a : α) : List (κ × List α) :=
  dictSet groups (key a) ((groups.lookup (key a)).getD [] ++ [a])

/-- The items of a list by their keys. -/
def groupBy (key : α → κ) (l : List α) : List (κ × List α) :=
  l.foldl (addToGroup key) []

theorem groupBy_append (key : α → κ) (l : List α) (a : α) :
    groupBy key (l ++ [a]) = addToGroup key (groupBy key l) a := by
  rw [groupBy, List.foldl_append]
  rfl

/-- The group of a key is what the list holds under it. -/
theorem lookup_groupBy (key : α → κ) (l : List α) (k : κ) :
    (groupBy key l).lookup k =
      if k ∈ l.map key then some (l.filter fun a => key a = k) else none := by
  induction l using List.reverseRecOn with
  | nil => simp [groupBy]
  | append_singleton l a ih =>
    rw [groupBy_append, addToGroup, lookup_dictSet]
    by_cases hk : k = key a
    · subst hk
      have hlast : key a ∈ (l ++ [a]).map key :=
        List.mem_map.mpr ⟨a, List.mem_append_right l List.mem_cons_self, rfl⟩
      rw [if_pos rfl, ih, if_pos hlast, List.filter_append, List.filter_singleton]
      by_cases hmem : key a ∈ l.map key
      · rw [if_pos hmem]
        simp
      · have hnone : (l.filter fun b => key b = key a) = [] := by
          rw [List.filter_eq_nil_iff]
          intro b hb
          simpa using fun heq => hmem (List.mem_map.mpr ⟨b, hb, heq⟩)
        rw [if_neg hmem, hnone]
        simp
    · have hne : ¬key a = k := fun heq => hk heq.symm
      rw [if_neg hk, ih]
      simp [hk, hne]

theorem nodup_keys_groupBy (key : α → κ) (l : List α) :
    ((groupBy key l).map Prod.fst).Nodup := by
  induction l using List.reverseRecOn with
  | nil => simp [groupBy]
  | append_singleton l a ih =>
    rw [groupBy_append, addToGroup, keys_dictSet]
    split
    case isTrue => exact ih
    case isFalse h =>
      rw [List.nodup_append]
      refine ⟨ih, List.nodup_singleton _, ?_⟩
      intro k hk k' hk' heq
      rw [List.mem_singleton] at hk'
      exact h (hk' ▸ heq ▸ hk)

/-- Of distinct keys, an entry of a dictionary is what its key is looked up as. -/
theorem mem_iff_lookup {d : List (κ × β)} (hnd : (d.map Prod.fst).Nodup) {k : κ} {b : β} :
    (k, b) ∈ d ↔ d.lookup k = some b := by
  constructor
  case mpr => exact mem_of_lookup
  case mp =>
    intro h
    induction d with
    | nil => simp at h
    | cons p d ih =>
      rw [List.map_cons, List.nodup_cons] at hnd
      rw [lookup_cons]
      cases List.mem_cons.mp h with
      | inl heq => rw [← heq, if_pos rfl]
      | inr hmem =>
        have hne : k ≠ p.1 := fun heq =>
          hnd.1 (heq ▸ List.mem_map.mpr ⟨(k, b), hmem, rfl⟩)
        rw [if_neg hne]
        exact ih hnd.2 hmem

/-- A group holds the items of its key, and there is one. -/
theorem mem_groupBy {key : α → κ} {l : List α} {k : κ} {group : List α} :
    (k, group) ∈ groupBy key l ↔ k ∈ l.map key ∧ group = l.filter fun a => key a = k := by
  rw [mem_iff_lookup (nodup_keys_groupBy key l), lookup_groupBy]
  by_cases h : k ∈ l.map key
  · rw [if_pos h, Option.some.injEq]
    simp [h, eq_comm]
  · rw [if_neg h]
    simp [h]

theorem mem_keys_groupBy {key : α → κ} {l : List α} {k : κ} :
    k ∈ (groupBy key l).map Prod.fst ↔ k ∈ l.map key := by
  rw [List.mem_map]
  constructor
  · rintro ⟨⟨k', group⟩, hmem, rfl⟩
    exact (mem_groupBy.mp hmem).1
  · intro h
    exact ⟨(k, l.filter fun a => key a = k), mem_groupBy.mpr ⟨h, rfl⟩, rfl⟩

theorem ne_nil_of_mem_groupBy {key : α → κ} {l : List α} {k : κ} {group : List α}
    (h : (k, group) ∈ groupBy key l) : group ≠ [] := by
  obtain ⟨hk, rfl⟩ := mem_groupBy.mp h
  obtain ⟨a, ha, hkey⟩ := List.mem_map.mp hk
  exact List.ne_nil_of_mem (List.mem_filter.mpr ⟨ha, by simpa using hkey⟩)

/-- The entries of the groups are those of the keys that occur, in the order of the groups. -/
theorem groupBy_eq_map (key : α → κ) (l : List α) :
    groupBy key l =
      ((groupBy key l).map Prod.fst).map fun k => (k, l.filter fun a => key a = k) := by
  rw [List.map_map]
  conv => lhs; rw [← List.map_id (groupBy key l)]
  refine List.map_congr_left ?_
  rintro ⟨k, group⟩ h
  obtain ⟨-, rfl⟩ := mem_groupBy.mp h
  rfl

theorem toFinset_keys_groupBy (key : α → κ) (l : List α) :
    ((groupBy key l).map Prod.fst).toFinset = (l.map key).toFinset := by
  ext k
  rw [List.mem_toFinset, List.mem_toFinset, mem_keys_groupBy]

/-- A sum over the groups is a sum over the keys that occur. -/
theorem sum_groupBy {M : Type} [AddCommMonoid M] (key : α → κ) (l : List α)
    (f : List α → M) :
    ((groupBy key l).map fun p => f p.2).sum =
      ∑ k ∈ (l.map key).toFinset, f (l.filter fun a => key a = k) := by
  rw [groupBy_eq_map, List.map_map, ← toFinset_keys_groupBy,
    List.sum_toFinset _ (nodup_keys_groupBy key l)]
  rfl

/-- Each item is in one group. -/
theorem flatMap_groupBy_perm (key : α → κ) (l : List α) :
    ((groupBy key l).flatMap Prod.snd).Perm l := by
  classical
  rw [List.perm_iff_count]
  intro a
  have hcount : ∀ p ∈ groupBy key l, p.2.count a = if p.1 = key a then l.count a else 0 := by
    rintro ⟨k, group⟩ h
    obtain ⟨-, rfl⟩ := mem_groupBy.mp h
    by_cases hk : k = key a
    · subst hk
      simp only [if_true]
      exact List.count_filter (by simp)
    · rw [if_neg hk]
      refine List.count_eq_zero.mpr ?_
      intro hmem
      exact hk (of_decide_eq_true (List.mem_filter.mp hmem).2).symm
  have hsum : (((groupBy key l).map fun p => p.2.count a)).sum =
      ∑ k ∈ (l.map key).toFinset, if k = key a then l.count a else 0 := by
    rw [List.map_congr_left hcount, ← toFinset_keys_groupBy,
      List.sum_toFinset _ (nodup_keys_groupBy key l), List.map_map]
    rfl
  rw [List.count_flatMap]
  change (((groupBy key l).map fun p => p.2.count a)).sum = _
  rw [hsum, Finset.sum_ite_eq']
  by_cases ha : a ∈ l
  · rw [if_pos (List.mem_toFinset.mpr (List.mem_map.mpr ⟨a, ha, rfl⟩))]
  · rw [List.count_eq_zero.mpr ha, ite_self]

end NemoRL.Lib
