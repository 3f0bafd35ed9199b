import Mathlib.Data.Finset.Attach
import Mathlib.Data.Finset.Image
import Mathlib.Data.Fintype.Basic

/-!
# Trees of dictionaries and lists

A tree of data is a scalar, a list or a dictionary. A dictionary is a family over a finite set
of keys: no key occurs twice, and two dictionaries with the same values are equal. A new one
is made from what is kept under each key, and read by its keys.

Two trees are walked together down to where one of them is no longer a dictionary. What is said
about two trees is said about the dictionaries that are met on the way and about the pairs where
the walk ends.

## Main definitions

* `DataTree`, `DataDict` — trees and dictionaries.
* `DataDict.get` — the value under a key.
* `DataDict.ofOption` — the dictionary of what is kept.
* `DataTree.eqBy` — equality up to an equality of scalars.
* `DataTree.merge` — merge dictionaries recursively.
* `DataTree.Everywhere` — what holds on a walk down two trees.

## Main results

* `DataDict.ext_get` — a dictionary is given by its values.
* `DataDict.get_merge` — the values of a merged dictionary.
* `DataTree.induction_pair` — induction along a walk down two trees.
-/

namespace NemoRL.Lib

/-- A tree of data. -/
inductive DataTree (κ σ : Type) : Type
  | scalar (value : σ)
  | list (n : ℕ) (elems : Fin n → DataTree κ σ)
  | dict (keys : Finset κ) (vals : {k // k ∈ keys} → DataTree κ σ)

/-- The entries of a dictionary. -/
structure DataDict (κ σ : Type) where
  keys : Finset κ
  vals : {k // k ∈ keys} → DataTree κ σ

variable {κ σ : Type}

namespace DataDict

/-- The keys under which something is kept. -/
def keptKeys (keys : Finset κ) (f : {k // k ∈ keys} → Option (DataTree κ σ)) : Finset κ :=
  (keys.attach.filter fun k => (f k).isSome).map (Function.Embedding.subtype _)

theorem mem_keptKeys {keys : Finset κ} {f : {k // k ∈ keys} → Option (DataTree κ σ)} {k : κ} :
    k ∈ keptKeys keys f ↔ ∃ h : k ∈ keys, (f ⟨k, h⟩).isSome := by
  simp [keptKeys]

theorem mem_of_mem_keptKeys (keys : Finset κ) (f : {k // k ∈ keys} → Option (DataTree κ σ))
    (k : {k // k ∈ keptKeys keys f}) : k.1 ∈ keys :=
  (mem_keptKeys.mp k.2).1

theorem isSome_of_mem_keptKeys (keys : Finset κ)
    (f : {k // k ∈ keys} → Option (DataTree κ σ)) (k : {k // k ∈ keptKeys keys f}) :
    (f ⟨k.1, mem_of_mem_keptKeys keys f k⟩).isSome :=
  (mem_keptKeys.mp k.2).2

/-- The dictionary of what is kept under some keys. -/
def ofOption (keys : Finset κ) (f : {k // k ∈ keys} → Option (DataTree κ σ)) : DataDict κ σ where
  keys := keptKeys keys f
  vals k := (f ⟨k.1, mem_of_mem_keptKeys keys f k⟩).get (isSome_of_mem_keptKeys keys f k)

variable [DecidableEq κ]

/-- The value under a key. -/
def get (d : DataDict κ σ) (k : κ) : Option (DataTree κ σ) :=
  if h : k ∈ d.keys then some (d.vals ⟨k, h⟩) else none

omit [DecidableEq κ] in
theorem false_of_mem_empty (k : {k // k ∈ (∅ : Finset κ)}) : False :=
  Finset.notMem_empty k.1 k.2

/-- The dictionary without entries. -/
def empty : DataDict κ σ := ⟨∅, fun k => (false_of_mem_empty k).elim⟩

theorem get_eq_some {d : DataDict κ σ} {k : κ} {v : DataTree κ σ} :
    d.get k = some v ↔ ∃ h : k ∈ d.keys, d.vals ⟨k, h⟩ = v := by
  rw [get]
  split <;> simp_all

theorem get_eq_none {d : DataDict κ σ} {k : κ} : d.get k = none ↔ k ∉ d.keys := by
  rw [get]
  split <;> simp_all

theorem get_of_mem (d : DataDict κ σ) (k : {k // k ∈ d.keys}) : d.get k.1 = some (d.vals k) :=
  get_eq_some.mpr ⟨k.2, rfl⟩

@[simp] theorem get_empty (k : κ) : (empty : DataDict κ σ).get k = none :=
  get_eq_none.mpr (Finset.notMem_empty k)

/-- A dictionary is given by its values. -/
theorem ext_get {d d' : DataDict κ σ} (h : ∀ k, d.get k = d'.get k) : d = d' := by
  obtain ⟨keys, vals⟩ := d
  obtain ⟨keys', vals'⟩ := d'
  obtain rfl : keys = keys' := by
    ext k
    rw [← not_iff_not]
    exact (get_eq_none (d := ⟨keys, vals⟩)).symm.trans
      ((by rw [h] : _ ↔ _).trans (get_eq_none (d := ⟨keys', vals'⟩)))
  congr 1
  ext1 k
  have hk := h k.1
  rw [get_of_mem ⟨keys, vals⟩ k, get_of_mem ⟨keys, vals'⟩ k] at hk
  exact Option.some.inj hk

theorem ext_get_iff {d d' : DataDict κ σ} : d = d' ↔ ∀ k, d.get k = d'.get k :=
  ⟨fun h k => by rw [h], ext_get⟩

theorem eq_empty_iff {d : DataDict κ σ} : d = empty ↔ ∀ k, d.get k = none := by
  simp [ext_get_iff]

theorem get_ofOption (keys : Finset κ) (f : {k // k ∈ keys} → Option (DataTree κ σ)) (k : κ) :
    (ofOption keys f).get k = if h : k ∈ keys then f ⟨k, h⟩ else none := by
  by_cases h : k ∈ keys
  · rw [dif_pos h]
    cases hf : f ⟨k, h⟩ with
    | none => simp [get_eq_none, ofOption, mem_keptKeys, hf]
    | some v => exact get_eq_some.mpr ⟨mem_keptKeys.mpr ⟨h, by simp [hf]⟩, by simp [ofOption, hf]⟩
  · rw [dif_neg h, get_eq_none]
    exact fun hk => h (mem_keptKeys.mp hk).1

theorem keys_eq_empty {d : DataDict κ σ} : d.keys = ∅ ↔ d = empty := by
  simp [eq_empty_iff, get_eq_none, Finset.eq_empty_iff_forall_notMem]

theorem keys_subset_iff {d e : DataDict κ σ} :
    d.keys ⊆ e.keys ↔ ∀ k t, d.get k = some t → ∃ u, e.get k = some u := by
  refine ⟨fun h k t ht => ?_, fun h k hk => ?_⟩
  · obtain ⟨hk, -⟩ := get_eq_some.mp ht
    exact ⟨_, e.get_of_mem ⟨k, h hk⟩⟩
  · obtain ⟨u, hu⟩ := h k _ (d.get_of_mem ⟨k, hk⟩)
    exact (get_eq_some.mp hu).1

/-- The entries whose keys are kept. -/
def filter (d : DataDict κ σ) (keep : κ → Bool) : DataDict κ σ :=
  ofOption d.keys fun k => if keep k.1 then some (d.vals k) else none

/-- The dictionary without a key. -/
def erase (d : DataDict κ σ) (key : κ) : DataDict κ σ := d.filter fun k => k ≠ key

/-- Put a value under a key. -/
def set (d : DataDict κ σ) (key : κ) (v : DataTree κ σ) : DataDict κ σ :=
  ofOption (insert key d.keys) fun k => if k.1 = key then some v else d.get k.1

/-- Change the values. -/
def mapVals (d : DataDict κ σ) (f : DataTree κ σ → DataTree κ σ) : DataDict κ σ :=
  ⟨d.keys, fun k => f (d.vals k)⟩

@[simp] theorem get_filter (d : DataDict κ σ) (keep : κ → Bool) (k : κ) :
    (d.filter keep).get k = if keep k then d.get k else none := by
  rw [filter, get_ofOption, get]
  split <;> simp

@[simp] theorem get_erase (d : DataDict κ σ) (key k : κ) :
    (d.erase key).get k = if k = key then none else d.get k := by
  by_cases h : k = key <;> simp [erase, h]

@[simp] theorem get_set (d : DataDict κ σ) (key : κ) (v : DataTree κ σ) (k : κ) :
    (d.set key v).get k = if k = key then some v else d.get k := by
  by_cases h : k = key
  · simp [set, get_ofOption, h]
  · by_cases hk : k ∈ d.keys
    · simp [set, get_ofOption, h, hk]
    · simp [set, get_ofOption, h, hk, get_eq_none.mpr hk]

@[simp] theorem get_mapVals (d : DataDict κ σ) (f : DataTree κ σ → DataTree κ σ) (k : κ) :
    (d.mapVals f).get k = (d.get k).map f := by
  by_cases h : k ∈ d.keys <;> simp [get, mapVals, h]

end DataDict

variable [DecidableEq κ]

namespace DataTree

/-- A dictionary as a tree. -/
def ofDict (d : DataDict κ σ) : DataTree κ σ := .dict d.keys d.vals

/-- A tree is a dictionary. -/
def isDict : DataTree κ σ → Bool
  | .dict _ _ => true
  | _ => false

/-- The value under a key of a dictionary. -/
def get : DataTree κ σ → κ → Option (DataTree κ σ)
  | .dict keys vals, k => (DataDict.mk keys vals).get k
  | _, _ => none

/-- The tree without a key, where it is a dictionary. -/
def erase : DataTree κ σ → κ → DataTree κ σ
  | .dict keys vals, key => ofDict ((DataDict.mk keys vals).erase key)
  | t, _ => t

@[simp] theorem get_ofDict (d : DataDict κ σ) : (ofDict d).get = d.get := rfl

@[simp] theorem erase_ofDict (d : DataDict κ σ) (key : κ) :
    (ofDict d).erase key = ofDict (d.erase key) := rfl

omit [DecidableEq κ] in
@[simp] theorem isDict_ofDict (d : DataDict κ σ) : (ofDict d).isDict = true := rfl

omit [DecidableEq κ] in
@[simp] theorem ofDict_inj {d d' : DataDict κ σ} : ofDict d = ofDict d' ↔ d = d' := by
  cases d
  cases d'
  rw [ofDict, ofDict, dict.injEq, DataDict.mk.injEq]

omit [DecidableEq κ] in
theorem isDict_iff {t : DataTree κ σ} : t.isDict = true ↔ ∃ d, t = ofDict d := by
  cases t with
  | dict keys vals => exact ⟨fun _ => ⟨⟨keys, vals⟩, rfl⟩, fun _ => rfl⟩
  | _ => simp [isDict, ofDict]

theorem get_of_not_dict {t : DataTree κ σ} (h : t.isDict = false) (k : κ) : t.get k = none := by
  cases t with
  | dict => cases h
  | _ => rfl

omit [DecidableEq κ] in
theorem mem_of_keys_eq {keys keys' : Finset κ} (h : keys = keys') (k : {k // k ∈ keys}) :
    k.1 ∈ keys' :=
  h ▸ k.2

/-- Equality of trees up to an equality of scalars. -/
def eqBy (eq : σ → σ → Bool) : DataTree κ σ → DataTree κ σ → Bool
  | .scalar a, .scalar b => eq a b
  | .list n elems, .list n' elems' =>
      if h : n = n' then decide (∀ i, eqBy eq (elems i) (elems' (Fin.cast h i)) = true) else false
  | .dict keys vals, .dict keys' vals' =>
      if h : keys = keys' then
        decide (∀ k : {k // k ∈ keys}, eqBy eq (vals k) (vals' ⟨k.1, mem_of_keys_eq h k⟩) = true)
      else false
  | _, _ => false

/-- Merge a tree over another one. Dictionaries are merged recursively, everything else is
replaced. -/
def merge : DataTree κ σ → DataTree κ σ → DataTree κ σ
  | .dict keys vals, .dict keys' vals' =>
      ofDict (DataDict.ofOption (keys ∪ keys') fun k =>
        if h' : k.1 ∈ keys' then
          if h : k.1 ∈ keys then some (merge (vals ⟨k, h⟩) (vals' ⟨k, h'⟩))
          else some (vals' ⟨k, h'⟩)
        else if h : k.1 ∈ keys then some (vals ⟨k, h⟩)
        else none)
  | _, t => t

/-- Dictionaries under the same keys are related by `node`, and where one of two trees under the
same keys is not a dictionary they are related by `leaf`. -/
def Everywhere (node : DataDict κ σ → DataDict κ σ → Prop)
    (leaf : DataTree κ σ → DataTree κ σ → Prop) : DataTree κ σ → DataTree κ σ → Prop
  | .dict keys vals, .dict keys' vals' =>
      node ⟨keys, vals⟩ ⟨keys', vals'⟩ ∧
        ∀ k : {k // k ∈ keys}, ∀ h : k.1 ∈ keys', Everywhere node leaf (vals k) (vals' ⟨k, h⟩)
  | t, u => leaf t u

theorem merge_of_not_dicts {t u : DataTree κ σ} (h : (t.isDict && u.isDict) = false) :
    t.merge u = u := by
  cases t with
  | dict keys vals =>
    cases u with
    | dict keys' vals' => cases h
    | _ => rfl
  | _ => rfl

variable {node : DataDict κ σ → DataDict κ σ → Prop} {leaf : DataTree κ σ → DataTree κ σ → Prop}

theorem everywhere_ofDict {d e : DataDict κ σ} :
    Everywhere node leaf (ofDict d) (ofDict e) ↔ node d e ∧
      ∀ k t u, d.get k = some t → e.get k = some u → Everywhere node leaf t u := by
  rw [ofDict, ofDict, Everywhere]
  refine and_congr_right fun _ => ⟨fun h k t u ht hu => ?_, fun h k hk => ?_⟩
  · obtain ⟨hk, rfl⟩ := DataDict.get_eq_some.mp ht
    obtain ⟨hk', rfl⟩ := DataDict.get_eq_some.mp hu
    exact h ⟨k, hk⟩ hk'
  · exact h k.1 _ _ (d.get_of_mem k) (e.get_of_mem ⟨k.1, hk⟩)

omit [DecidableEq κ] in
theorem everywhere_of_not_dicts {t u : DataTree κ σ} (h : (t.isDict && u.isDict) = false) :
    Everywhere node leaf t u ↔ leaf t u := by
  cases t with
  | dict keys vals =>
    cases u with
    | dict keys' vals' => cases h
    | _ => rw [Everywhere]; simp
  | _ => rw [Everywhere]; simp

/-- Induction along a walk down two trees. -/
theorem induction_pair {motive : DataTree κ σ → DataTree κ σ → Prop}
    (dicts : ∀ d e : DataDict κ σ,
      (∀ k t u, d.get k = some t → e.get k = some u → motive t u) → motive (ofDict d) (ofDict e))
    (other : ∀ t u, (t.isDict && u.isDict) = false → motive t u) (t u : DataTree κ σ) :
    motive t u := by
  induction t generalizing u with
  | scalar => exact other _ _ rfl
  | list => exact other _ _ rfl
  | dict keys vals ih =>
    by_cases hu : u.isDict = true
    · obtain ⟨e, rfl⟩ := isDict_iff.mp hu
      refine dicts ⟨keys, vals⟩ e fun k t u ht _ => ?_
      obtain ⟨hk, rfl⟩ := DataDict.get_eq_some.mp ht
      exact ih ⟨k, hk⟩ u
    · exact other _ _ (by simpa [isDict] using hu)

end DataTree

/-- Merge a dictionary over another one. -/
def DataDict.merge (d e : DataDict κ σ) : DataDict κ σ :=
  ofOption (d.keys ∪ e.keys) fun k =>
    match d.get k, e.get k with
    | some t, some u => some (t.merge u)
    | t, none => t
    | none, u => u

/-- The values of a merged dictionary. -/
theorem DataDict.get_merge (d e : DataDict κ σ) (k : κ) :
    (d.merge e).get k = match d.get k, e.get k with
      | some t, some u => some (t.merge u)
      | t, none => t
      | none, u => u := by
  rw [merge, get_ofOption]
  by_cases h : k ∈ d.keys ∪ e.keys
  · rw [dif_pos h]
  · rw [dif_neg h]
    rw [Finset.mem_union, not_or] at h
    rw [get_eq_none.mpr h.1, get_eq_none.mpr h.2]

@[simp] theorem DataDict.merge_empty (d : DataDict κ σ) : d.merge empty = d := by
  refine ext_get fun k => ?_
  rw [get_merge, get_empty]
  cases d.get k <;> rfl

@[simp] theorem DataTree.merge_ofDict (d e : DataDict κ σ) :
    (ofDict d).merge (ofDict e) = ofDict (d.merge e) := by
  refine congrArg (fun f => ofDict (DataDict.ofOption (d.keys ∪ e.keys) f)) (funext fun k => ?_)
  by_cases h : k.1 ∈ d.keys <;> by_cases h' : k.1 ∈ e.keys <;> simp [DataDict.get, h, h']

end NemoRL.Lib
