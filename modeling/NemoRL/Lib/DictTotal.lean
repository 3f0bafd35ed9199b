import NemoRL.Lib.Grouping
import Mathlib.Algebra.BigOperators.Group.List.Basic
import Mathlib.Tactic.Abel

/-!
# Removing keys and adding up values

Keys of a dictionary are set and removed. While the keys are different, the sum of the values changes
by what the values at these keys change by.

## Main definitions

* `popAll` — remove keys.
* `total` — the sum of the values.
* `addAll` — add to the values at keys.

## Main results

* `lookup_popAll` — removing keys changes the values at these keys only.
* `total_dictSet`, `total_popAll`, `total_addAll` — the sum of the values after a change.
-/

namespace NemoRL.Lib

variable {κ β : Type} [DecidableEq κ] {d : List (κ × β)} {k : κ}

/-! ## Keys -/

/-- Remove keys from a dictionary. -/
def popAll (d : List (κ × β)) (keys : List κ) : List (κ × β) :=
  d.filter fun p => p.1 ∉ keys

theorem nodup_keys_dictSet (h : (d.map Prod.fst).Nodup) (k : κ) (b : β) :
    ((dictSet d k b).map Prod.fst).Nodup := by
  rw [keys_dictSet]
  by_cases hk : k ∈ d.map Prod.fst
  · rw [if_pos hk]
    exact h
  · rw [if_neg hk]
    exact List.nodup_append.mpr ⟨h, List.nodup_singleton k, fun a ha b hb hab =>
      hk (by rwa [← List.mem_singleton.mp hb, ← hab])⟩

theorem mem_keys_dictSet {k' : κ} {b : β} :
    k' ∈ (dictSet d k b).map Prod.fst ↔ k' ∈ d.map Prod.fst ∨ k' = k := by
  rw [keys_dictSet]
  by_cases hk : k ∈ d.map Prod.fst
  · rw [if_pos hk]
    exact ⟨.inl, fun h => h.elim id fun h => h ▸ hk⟩
  · rw [if_neg hk, List.mem_append, List.mem_singleton]

theorem keys_popAll (d : List (κ × β)) (keys : List κ) :
    (popAll d keys).map Prod.fst = (d.map Prod.fst).filter (· ∉ keys) := by
  rw [popAll, List.filter_map]
  rfl

/-- Removing keys changes the values at these keys only. -/
theorem lookup_popAll (d : List (κ × β)) (keys : List κ) (k : κ) :
    (popAll d keys).lookup k = if k ∈ keys then none else d.lookup k := by
  induction d with
  | nil => simp [popAll]
  | cons p d ih =>
    rw [popAll] at ih ⊢
    rw [List.filter_cons, lookup_cons]
    by_cases hp : p.1 ∈ keys
    · rw [if_neg (by simpa using hp), ih]
      by_cases hk : k ∈ keys
      · rw [if_pos hk, if_pos hk]
      · rw [if_neg hk, if_neg hk, if_neg fun h : k = p.1 => hk (h ▸ hp)]
    · rw [if_pos (by simpa using hp), lookup_cons, ih]
      by_cases hk : k ∈ keys
      · rw [if_pos hk, if_pos hk, if_neg fun h : k = p.1 => hp (h ▸ hk)]
      · rw [if_neg hk, if_neg hk]

/-- A key without a value is no key. -/
theorem lookup_eq_none_iff_notMem : d.lookup k = none ↔ k ∉ d.map Prod.fst := by
  constructor
  · intro h hk
    obtain ⟨b, hb⟩ := exists_lookup hk
    rw [h] at hb
    cases hb
  · intro h
    cases hb : d.lookup k with
    | none => rfl
    | some b => exact absurd (List.mem_map_of_mem (mem_of_lookup hb)) h

/-- Removing keys that are not there. -/
theorem popAll_eq_self {keys : List κ} (h : ∀ k ∈ keys, k ∉ d.map Prod.fst) :
    popAll d keys = d := by
  rw [popAll, List.filter_eq_self]
  intro p hp
  exact decide_eq_true fun hk => h p.1 hk (List.mem_map_of_mem hp)

/-- Removing one key and then others. -/
theorem popAll_popAll (d : List (κ × β)) (k : κ) (keys : List κ) :
    popAll (popAll d [k]) keys = popAll d (k :: keys) := by
  rw [popAll, popAll, popAll, List.filter_filter]
  refine List.filter_congr fun p _ => ?_
  simp [Bool.and_comm]

/-- Setting a key and then mapping the values. -/
theorem map_dictSet {γ : Type} (f : β → γ) (d : List (κ × β)) (k : κ) (b : β) :
    (dictSet d k b).map (fun p => (p.1, f p.2)) =
      dictSet (d.map fun p => (p.1, f p.2)) k (f b) := by
  induction d with
  | nil => rfl
  | cons p d ih =>
    rw [dictSet, List.map_cons, dictSet]
    by_cases hp : k = p.1
    · rw [if_pos hp, if_pos hp, List.map_cons]
    · rw [if_neg hp, if_neg hp, List.map_cons, ih]

/-- Removing keys and then mapping the values. -/
theorem map_popAll {γ : Type} (f : β → γ) (d : List (κ × β)) (keys : List κ) :
    (popAll d keys).map (fun p => (p.1, f p.2)) =
      popAll (d.map fun p => (p.1, f p.2)) keys := by
  rw [popAll, popAll, List.filter_map]
  rfl

/-! ## The sum of the values -/

section Total
variable {M : Type} [AddCommMonoid M] {d : List (κ × M)}

/-- The sum of the values. -/
def total (d : List (κ × M)) : M := (d.map Prod.snd).sum

omit [DecidableEq κ] in
@[simp] theorem total_nil : total ([] : List (κ × M)) = 0 := rfl

omit [DecidableEq κ] in
@[simp] theorem total_cons (p : κ × M) (d : List (κ × M)) : total (p :: d) = p.2 + total d := by
  rw [total, List.map_cons, List.sum_cons, total]

/-- Setting a key exchanges its value. -/
theorem total_dictSet (d : List (κ × M)) (k : κ) (b : M) :
    total (dictSet d k b) + (d.lookup k).getD 0 = total d + b := by
  induction d with
  | nil => simp [dictSet]
  | cons p d ih =>
    obtain ⟨k', b'⟩ := p
    rw [dictSet, lookup_cons]
    by_cases hk : k = k'
    · rw [if_pos hk, if_pos hk, total_cons, total_cons, Option.getD_some]
      abel
    · rw [if_neg hk, if_neg hk, total_cons, total_cons, add_assoc, ih, add_assoc]

/-- Setting a key to more than it had. -/
theorem total_dictSet_add [IsLeftCancelAdd M] (d : List (κ × M)) (k : κ) (b : M) :
    total (dictSet d k ((d.lookup k).getD 0 + b)) = total d + b := by
  have h := total_dictSet d k ((d.lookup k).getD 0 + b)
  rw [add_comm, add_left_comm] at h
  exact add_left_cancel h

/-- Removing a key removes its value. -/
theorem total_popAll (hnodup : (d.map Prod.fst).Nodup) (k : κ) :
    total (popAll d [k]) + (d.lookup k).getD 0 = total d := by
  induction d with
  | nil => simp [popAll]
  | cons p d ih =>
    rw [List.map_cons, List.nodup_cons] at hnodup
    rw [lookup_cons, total_cons, popAll, List.filter_cons, ← popAll]
    by_cases hk : k = p.1
    · subst hk
      have hrest : popAll d [p.1] = d := popAll_eq_self fun k hk =>
        List.mem_singleton.mp hk ▸ hnodup.1
      rw [if_neg (by simp), if_pos rfl, hrest, Option.getD_some, add_comm]
    · rw [if_pos (by simpa using Ne.symm hk), if_neg hk, total_cons, add_assoc, ih hnodup.2]

/-- Add to the values at keys, one after the other. -/
def addAll (d : List (κ × M)) (l : List (κ × M)) : List (κ × M) :=
  l.foldl (fun d q => dictSet d q.1 ((d.lookup q.1).getD 0 + q.2)) d

theorem nodup_keys_addAll (hnodup : (d.map Prod.fst).Nodup) (l : List (κ × M)) :
    ((addAll d l).map Prod.fst).Nodup := by
  induction l generalizing d with
  | nil => exact hnodup
  | cons q l ih => exact ih (nodup_keys_dictSet hnodup _ _)

theorem mem_keys_addAll {l : List (κ × M)} :
    k ∈ (addAll d l).map Prod.fst ↔ k ∈ d.map Prod.fst ∨ k ∈ l.map Prod.fst := by
  induction l generalizing d with
  | nil => simp [addAll]
  | cons q l ih =>
    rw [addAll, List.foldl_cons, ← addAll, ih, mem_keys_dictSet, List.map_cons, List.mem_cons,
      or_assoc]

/-- What a key has after adding. -/
theorem lookup_addAll (d : List (κ × M)) (l : List (κ × M)) (k : κ) :
    ((addAll d l).lookup k).getD 0 =
      (d.lookup k).getD 0 + ((l.filter fun q => q.1 = k).map Prod.snd).sum := by
  induction l generalizing d with
  | nil => simp [addAll]
  | cons q l ih =>
    rw [addAll, List.foldl_cons, ← addAll, ih, lookup_dictSet]
    by_cases hq : q.1 = k
    · rw [if_pos hq.symm, List.filter_cons_of_pos (by simpa using hq), List.map_cons,
        List.sum_cons, Option.getD_some, hq, add_assoc]
    · rw [if_neg (Ne.symm hq), List.filter_cons_of_neg (by simpa using hq)]

/-- The sum of the values after adding. -/
theorem total_addAll [IsLeftCancelAdd M] (d : List (κ × M)) (l : List (κ × M)) :
    total (addAll d l) = total d + (l.map Prod.snd).sum := by
  induction l generalizing d with
  | nil => simp [addAll]
  | cons q l ih =>
    rw [addAll, List.foldl_cons, ← addAll, ih, total_dictSet_add, List.map_cons, List.sum_cons,
      add_assoc]

end Total
end NemoRL.Lib
