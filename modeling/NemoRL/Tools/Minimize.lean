import NemoRL.Tools.ConfigCli

/-!
# When a minimised value means the same

A value of a child that is equal to the one of the base goes, and so does what is empty after it.
What is left is merged over what is inherited, and this gives what the whole value would have
given as long as two things hold wherever the child and the base have a value that is not a
dictionary on both sides: values that are equal are the same value, and a value that is not equal
is not `{}` or `[]`, since this would go too.

A marked section does not merge, so more is needed of it. The marker is one of its keys and goes
when the base has an equal one. Then the rest is merged over a section that it was meant to
replace. If the marker stays, what is left of the section replaces, and every other key that went
is missing.

## Main definitions

* `LeafKept` — what is needed of two values that are not both dictionaries.
* `Keeps`, `Restored`, `Untouched`, `Vanishes` — what is said of two values along a walk.
* `KeepsMeaning` — what is needed of two sections.

## Main results

* `prunedValue_eq_none`, `prunedValue_eq_self` — when nothing is left, and when everything is.
* `merge_prunedValue_iff`, `merge_prunedValue_eq_iff` — what a merge of what is left gives.
* `loadedValue_prunedValue_iff` — what is loaded for a section.
-/

namespace NemoRL.Tools.ConfigCli

open NemoRL.Lib DataTree

/-! ## What is left of a value -/

/-- Values that are equal are the same, and a value that is not equal has content. -/
def LeafKept (c r : Value) : Prop := if pyEq c r then c = r else hasContent c

/-- Every value that goes is the one of the base. -/
def Keeps : Value → Value → Prop := Everywhere (fun _ _ => True) LeafKept

/-- Every value that goes is the one of the base, and the base has no other keys. -/
def Restored : Value → Value → Prop := Everywhere (fun c r => r.keys ⊆ c.keys) LeafKept

/-- Nothing goes. -/
def Untouched : Value → Value → Prop :=
  Everywhere (fun c _ => c.keys ≠ ∅) fun c r => pyEq c r = false ∧ hasContent c

/-- Everything goes. -/
def Vanishes : Value → Value → Prop :=
  Everywhere (fun c r => c.keys ⊆ r.keys) fun c r => pyEq c r ∨ hasContent c = false

theorem prunedValue_of_not_dicts {c r : Value} (h : (c.isDict && r.isDict) = false) :
    prunedValue c r = if pyEq c r then none else if hasContent c then some c else none := by
  have hprune : pruneEqual c r = if pyEq c r then none else some c := by
    cases c with
    | dict =>
      cases r with
      | dict => cases h
      | _ => rw [pruneEqual]; simp
    | _ => rw [pruneEqual]; simp
  rw [prunedValue, hprune]
  split <;> simp [Option.filter]

theorem prunedValue_ofDict (c r : Config) :
    prunedValue (ofDict c) (ofDict r) =
      if (pruneConfig c r).keys = ∅ then none else some (ofDict (pruneConfig c r)) := by
  rw [prunedValue, pruneEqual_ofDict, Option.filter_some]
  by_cases h : (pruneConfig c r).keys = ∅ <;> simp [hasContent, ofDict, h]

theorem prunedValue_eq_none {c r : Value} : prunedValue c r = none ↔ Vanishes c r := by
  induction c, r using induction_pair with
  | dicts c r ih =>
    rw [prunedValue_ofDict, Vanishes, everywhere_ofDict, DataDict.keys_subset_iff]
    simp only [ite_eq_left_iff, reduceCtorEq, imp_false, not_not, DataDict.keys_eq_empty,
      DataDict.eq_empty_iff, get_pruneConfig]
    refine ⟨fun h => ⟨fun k t ht => ?_, fun k t u ht hu => ?_⟩, fun h k => ?_⟩
    · have hk := h k
      cases hu : r.get k with
      | none => simp [ht, hu] at hk
      | some u => exact ⟨u, rfl⟩
    · have hk := h k
      rw [ht, hu] at hk
      exact (ih k t u ht hu).mp hk
    · cases ht : c.get k with
      | none => rfl
      | some t =>
        obtain ⟨u, hu⟩ := h.1 k t ht
        rw [hu]
        exact (ih k t u ht hu).mpr (h.2 k t u ht hu)
  | other c r h =>
    rw [prunedValue_of_not_dicts h, Vanishes, everywhere_of_not_dicts h]
    by_cases heq : pyEq c r = true <;> by_cases hc : hasContent c = true <;> simp [heq, hc]

theorem pruneConfig_eq_self {c r : Config} :
    pruneConfig c r = c ↔
      ∀ k t u, c.get k = some t → r.get k = some u → prunedValue t u = some t := by
  simp only [DataDict.ext_get_iff, get_pruneConfig]
  refine ⟨fun h k t u ht hu => ?_, fun h k => ?_⟩
  · simpa [ht, hu] using h k
  · cases ht : c.get k with
    | none => rfl
    | some t =>
      cases hu : r.get k with
      | none => rfl
      | some u => exact h k t u ht hu

theorem prunedValue_eq_self {c r : Value} : prunedValue c r = some c ↔ Untouched c r := by
  induction c, r using induction_pair with
  | dicts c r ih =>
    rw [prunedValue_ofDict, Untouched, everywhere_ofDict]
    have hself : pruneConfig c r = c ↔
        ∀ k t u, c.get k = some t → r.get k = some u → Untouched t u := by
      rw [pruneConfig_eq_self]
      exact forall₃_congr fun k t u => forall₂_congr fun ht hu => ih k t u ht hu
    rw [Untouched] at hself
    rw [← hself]
    by_cases h : pruneConfig c r = c <;> simp [h]
  | other c r h =>
    rw [prunedValue_of_not_dicts h, Untouched, everywhere_of_not_dicts h]
    by_cases heq : pyEq c r = true <;> by_cases hc : hasContent c = true <;> simp [heq, hc]

/-! ## What a merge gives back -/

/-- Values that come from those of `r` when other keys are added to dictionaries. -/
def Extends : Value → Value → Prop := Everywhere (fun p r => r.keys ⊆ p.keys) fun p r => p = r

theorem Extends.refl (r : Value) : Extends r r := by
  induction r with
  | scalar => exact (everywhere_of_not_dicts rfl).mpr rfl
  | list => exact (everywhere_of_not_dicts rfl).mpr rfl
  | dict keys vals ih =>
    refine (everywhere_ofDict (d := ⟨keys, vals⟩) (e := ⟨keys, vals⟩)).mpr
      ⟨Finset.Subset.refl _, fun k t u ht hu => ?_⟩
    obtain ⟨hk, rfl⟩ := DataDict.get_eq_some.mp ht
    obtain ⟨-, rfl⟩ := DataDict.get_eq_some.mp hu
    exact ih ⟨k, hk⟩

theorem Extends.merge (q r : Value) : Extends (q.merge r) r := by
  induction q, r using induction_pair with
  | dicts q r ih =>
    rw [merge_ofDict, Extends, everywhere_ofDict, DataDict.keys_subset_iff]
    refine ⟨fun k u hu => ?_, fun k t u ht hu => ?_⟩
    · rw [DataDict.get_merge, hu]
      cases q.get k <;> exact ⟨_, rfl⟩
    · rw [DataDict.get_merge, hu] at ht
      cases hq : q.get k with
      | none =>
        rw [hq] at ht
        cases ht
        exact Extends.refl _
      | some s =>
        rw [hq] at ht
        cases ht
        exact ih k s u hq hu
  | other q r h =>
    rw [merge_of_not_dicts h]
    exact Extends.refl r

theorem Extends.exists_dict {p : Value} {r : Config} (h : Extends p (ofDict r)) :
    ∃ d, p = ofDict d ∧ ∀ k u, r.get k = some u → ∃ t, d.get k = some t ∧ Extends t u := by
  by_cases hdict : p.isDict = true
  · obtain ⟨d, rfl⟩ := isDict_iff.mp hdict
    rw [Extends, everywhere_ofDict, DataDict.keys_subset_iff] at h
    refine ⟨d, rfl, fun k u hu => ?_⟩
    obtain ⟨t, ht⟩ := h.1 k u hu
    exact ⟨t, ht, h.2 k t u ht hu⟩
  · have hp : p = ofDict r := (everywhere_of_not_dicts (by simp [hdict])).mp h
    exact absurd (by rw [hp]; rfl) hdict

theorem Extends.eq {p r : Value} (h : Extends p r) (hr : r.isDict = false) : p = r :=
  (everywhere_of_not_dicts (by simp [hr])).mp h

theorem merge_pruneConfig_iff {p c r : Config} :
    p.merge (pruneConfig c r) = p.merge c ↔
      ∀ k t u, c.get k = some t → r.get k = some u → match p.get k with
        | some s => (prunedValue t u).elim s s.merge = s.merge t
        | none => prunedValue t u = some t := by
  simp only [DataDict.ext_get_iff, DataDict.get_merge, get_pruneConfig]
  refine forall_congr' fun k => ?_
  cases ht : c.get k with
  | none => simp
  | some t =>
    cases hu : r.get k with
    | none => simp
    | some u =>
      refine Iff.trans ?_ (⟨fun h t' u' ht' hu' => ?_, fun h => h t u rfl rfl⟩ :
        (match p.get k with
          | some s => (prunedValue t u).elim s s.merge = s.merge t
          | none => prunedValue t u = some t) ↔ _)
      · simp only
        cases p.get k <;> cases prunedValue t u <;> simp
      · cases ht'
        cases hu'
        exact h

theorem elim_prunedValue_ofDict (p c r : Config) :
    (prunedValue (ofDict c) (ofDict r)).elim (ofDict p) (ofDict p).merge =
      ofDict (p.merge (pruneConfig c r)) := by
  rw [prunedValue_ofDict]
  by_cases h : (pruneConfig c r).keys = ∅
  · rw [if_pos h, DataDict.keys_eq_empty.mp h]
    simp
  · simp [h]

theorem isDict_of_pyEq {c r : Value} (h : pyEq c r = true) : c.isDict = r.isDict := by
  cases c <;> cases r <;> simp_all [pyEq, eqBy, isDict]

theorem eq_nil_of_hasContent {c : Value} (h : hasContent c = false) (hc : c.isDict = false) :
    ∃ elems, c = .list 0 elems := by
  cases c with
  | scalar => cases h
  | list n elems =>
    obtain rfl : n = 0 := by simpa [hasContent] using h
    exact ⟨elems, rfl⟩
  | dict => cases hc

/-- A merge over an inherited value gives what the whole value would give, exactly when every
value that goes is the one of the base. -/
theorem merge_prunedValue_iff {p c r : Value} (hp : Extends p r) :
    (prunedValue c r).elim p p.merge = p.merge c ↔ Keeps c r := by
  induction c, r using induction_pair generalizing p with
  | dicts c r ih =>
    obtain ⟨p, rfl, hget⟩ := hp.exists_dict
    rw [elim_prunedValue_ofDict, merge_ofDict, ofDict_inj, merge_pruneConfig_iff, Keeps,
      everywhere_ofDict, true_and]
    refine forall₃_congr fun k t u => forall₂_congr fun ht hu => ?_
    obtain ⟨s, hs, hext⟩ := hget k u hu
    rw [hs]
    exact ih k t u ht hu hext
  | other c r h =>
    rw [prunedValue_of_not_dicts h, Keeps, everywhere_of_not_dicts h, LeafKept]
    by_cases heq : pyEq c r = true
    · have hr : r.isDict = false := by simpa [isDict_of_pyEq heq] using h
      have hc : c.isDict = false := (isDict_of_pyEq heq).trans hr
      rw [if_pos heq, if_pos heq, hp.eq hr, merge_of_not_dicts (by simp [hr])]
      exact eq_comm
    · by_cases hcontent : hasContent c = true
      · simp [heq, hcontent]
      · simp only [heq, hcontent, if_false, Option.elim, iff_false, Bool.false_eq_true]
        intro hmerge
        have hcontent : hasContent c = false := by simpa using hcontent
        by_cases hc : c.isDict = true
        · have hr : r.isDict = false := by simpa [hc] using h
          rw [hp.eq hr, merge_of_not_dicts (by simp [hr])] at hmerge
          rw [← hmerge, hr] at hc
          cases hc
        · obtain ⟨elems, rfl⟩ := eq_nil_of_hasContent hcontent (by simpa using hc)
          rw [merge_of_not_dicts (by simp [isDict])] at hmerge
          by_cases hr : r.isDict = true
          · obtain ⟨r, rfl⟩ := isDict_iff.mp hr
            obtain ⟨p, rfl, -⟩ := hp.exists_dict
            cases hmerge
          · rw [← hp.eq (by simpa using hr), hmerge] at heq
            simp [pyEq, eqBy] at heq

/-- A merge over the base gives back the value, exactly when every value that goes is the one of
the base and the base has no other keys. -/
theorem merge_prunedValue_eq_iff {c r : Value} :
    (prunedValue c r).elim r r.merge = c ↔ Restored c r := by
  induction c, r using induction_pair with
  | dicts c r ih =>
    rw [elim_prunedValue_ofDict, ofDict_inj, Restored, everywhere_ofDict,
      DataDict.keys_subset_iff, DataDict.ext_get_iff]
    simp only [DataDict.get_merge, get_pruneConfig]
    refine ⟨fun h => ⟨fun k u hu => ?_, fun k t u ht hu => ?_⟩, fun h k => ?_⟩
    · have hk := h k
      cases ht : c.get k with
      | none => simp [ht, hu] at hk
      | some t => exact ⟨t, rfl⟩
    · refine (ih k t u ht hu).mp ?_
      have hk := h k
      rw [ht, hu] at hk
      cases hw : prunedValue t u <;> simpa [hw] using hk
    · cases hu : r.get k with
      | none => cases c.get k <;> rfl
      | some u =>
        obtain ⟨t, ht⟩ := h.1 k u hu
        have hk := (ih k t u ht hu).mpr (h.2 k t u ht hu)
        rw [ht]
        cases hw : prunedValue t u <;> simpa [hw] using hk
  | other c r h =>
    rw [prunedValue_of_not_dicts h, Restored, everywhere_of_not_dicts h, LeafKept]
    by_cases heq : pyEq c r = true
    · simpa [heq] using eq_comm
    · by_cases hcontent : hasContent c = true
      · simp [heq, hcontent, merge_of_not_dicts (t := r) (u := c) (by rwa [Bool.and_comm])]
      · simp only [heq, hcontent, if_false, Option.elim, iff_false, Bool.false_eq_true]
        rintro rfl
        obtain ⟨elems, rfl⟩ := eq_nil_of_hasContent (by simpa using hcontent) (by simpa using h)
        simp [pyEq, eqBy] at heq

theorem merge_pruneConfig_eq_iff {c r : Config} :
    r.merge (pruneConfig c r) = c ↔ Restored (ofDict c) (ofDict r) := by
  rw [← merge_prunedValue_eq_iff, elim_prunedValue_ofDict, ofDict_inj]

theorem pruneConfig_erase (c r : Config) (key : String) :
    (pruneConfig c r).erase key = pruneConfig (c.erase key) (r.erase key) := by
  refine DataDict.ext_get fun k => ?_
  by_cases h : k = key <;> simp [get_pruneConfig, h]

/-! ## Marked sections -/

theorem Scalar.truthy_of_number {a : Scalar} {x : ℚ} (h : a.number = some x) :
    a.truthy = decide (x ≠ 0) := by
  cases a with
  | none => cases h
  | bool value => cases value <;> cases h <;> simp [truthy]
  | int value =>
    cases h
    simp [truthy]
  | float value => cases value <;> cases h <;> simp [truthy]
  | str => cases h

theorem Scalar.truthy_of_pyEq {a b : Scalar} (h : a.pyEq b = true) : a.truthy = b.truthy := by
  rw [pyEq] at h
  cases ha : a.number with
  | none =>
    cases hb : b.number with
    | none =>
      rw [ha, hb] at h
      have hab : a = b := by simp_all
      rw [hab]
    | some y => simp [ha, hb] at h
  | some x =>
    cases hb : b.number with
    | none => simp [ha, hb] at h
    | some y =>
      have hxy : x = y := by simpa [ha, hb] using h
      rw [truthy_of_number ha, truthy_of_number hb, hxy]

theorem truthy_of_pyEq {t u : Value} (h : pyEq t u = true) : truthy t = truthy u := by
  cases t with
  | scalar a =>
    cases u with
    | scalar b => exact Scalar.truthy_of_pyEq h
    | _ => simp [pyEq, eqBy] at h
  | list n elems =>
    cases u with
    | list n' elems' =>
      by_cases hn : n = n'
      · simp [truthy, hn]
      · simp [pyEq, eqBy, hn] at h
    | _ => simp [pyEq, eqBy] at h
  | dict keys vals =>
    cases u with
    | dict keys' vals' =>
      by_cases hkeys : keys = keys'
      · simp [truthy, hkeys]
      · simp [pyEq, eqBy, hkeys] at h
    | _ => simp [pyEq, eqBy] at h

theorem hasContent_of_truthy {t : Value} (h : truthy t = true) : hasContent t = true := by
  cases t with
  | scalar => rfl
  | _ => exact h

/-- The marker is removed. -/
def MarkerVanishes (c r : Value) : Prop :=
  ∃ t u, c.get "_override_" = some t ∧ r.get "_override_" = some u ∧ Vanishes t u

/-- The truth value of what is left of a value. -/
theorem truthy_prunedValue {t u s : Value} (h : prunedValue t u = some s) :
    truthy s = truthy t := by
  by_cases hdicts : (t.isDict && u.isDict) = false
  · rw [prunedValue_of_not_dicts hdicts] at h
    split at h
    · cases h
    · split at h
      · cases h
        rfl
      · cases h
  · rw [Bool.not_eq_false, Bool.and_eq_true] at hdicts
    obtain ⟨t, rfl⟩ := isDict_iff.mp hdicts.1
    obtain ⟨u, rfl⟩ := isDict_iff.mp hdicts.2
    rw [prunedValue_ofDict] at h
    split at h
    · cases h
    · case isFalse hkeys =>
      cases h
      have ht : t.keys ≠ ∅ := by
        rw [Ne, DataDict.keys_eq_empty]
        rintro rfl
        refine hkeys (DataDict.keys_eq_empty.mpr (DataDict.eq_empty_iff.mpr fun k => ?_))
        rw [get_pruneConfig, DataDict.get_empty]
      simp [truthy, ofDict, hkeys, ht]

theorem truthy_of_vanishes {t u : Value} (h : Vanishes t u) (ht : truthy t = true) :
    truthy u = true := by
  by_cases hdicts : (t.isDict && u.isDict) = false
  · obtain heq | hcontent := (everywhere_of_not_dicts hdicts).mp h
    · rw [← truthy_of_pyEq heq, ht]
    · rw [hasContent_of_truthy ht] at hcontent
      cases hcontent
  · rw [Bool.not_eq_false, Bool.and_eq_true] at hdicts
    obtain ⟨t, rfl⟩ := isDict_iff.mp hdicts.1
    obtain ⟨u, rfl⟩ := isDict_iff.mp hdicts.2
    have hsub := (everywhere_ofDict.mp h).1
    simp only [truthy, ofDict, ne_eq, decide_eq_true_eq] at ht ⊢
    rintro hu
    rw [hu] at hsub
    exact ht (Finset.subset_empty.mp hsub)

/-- A value that is not true stays next to one that is, exactly when it has content. -/
theorem prunedValue_eq_self_of_truthy {t u : Value} (ht : truthy t = false)
    (hu : truthy u = true) : prunedValue t u = some t ↔ hasContent t = true := by
  rw [prunedValue_eq_self]
  by_cases hdicts : (t.isDict && u.isDict) = false
  · rw [Untouched, everywhere_of_not_dicts hdicts]
    refine and_iff_right_of_imp fun _ => ?_
    by_contra heq
    rw [truthy_of_pyEq (by simpa using heq), hu] at ht
    cases ht
  · rw [Bool.not_eq_false, Bool.and_eq_true] at hdicts
    obtain ⟨t, rfl⟩ := isDict_iff.mp hdicts.1
    obtain ⟨u, rfl⟩ := isDict_iff.mp hdicts.2
    have hkeys : t.keys = ∅ := by simpa [truthy, ofDict] using ht
    rw [Untouched, everywhere_ofDict]
    simp [hasContent, ofDict, hkeys]

theorem isOverride_ofDict (d : Config) :
    isOverride (ofDict d) = (d.get "_override_").any truthy := rfl

theorem exists_of_isOverride {v : Value} (h : isOverride v = true) :
    ∃ u, v.get "_override_" = some u ∧ truthy u = true := by
  rw [isOverride] at h
  cases hu : v.get "_override_" with
  | none => simp [hu] at h
  | some u => exact ⟨u, rfl, by simpa [hu] using h⟩

theorem isOverride_of_not_dict {v : Value} (h : v.isDict = false) : isOverride v = false := by
  rw [isOverride, get_of_not_dict h]
  rfl

/-- What is left of a section is marked when the section is, unless the marker is removed. -/
theorem isOverride_pruneConfig {c r : Config}
    (h : ¬MarkerVanishes (ofDict c) (ofDict r)) :
    isOverride (ofDict (pruneConfig c r)) = isOverride (ofDict c) := by
  rw [isOverride_ofDict, isOverride_ofDict, get_pruneConfig]
  cases ht : c.get "_override_" with
  | none => rfl
  | some t =>
    cases hu : r.get "_override_" with
    | none => rfl
    | some u =>
      cases hw : prunedValue t u with
      | none => exact absurd ⟨t, u, ht, hu, prunedValue_eq_none.mp hw⟩ h
      | some s => simpa [hw] using truthy_prunedValue hw

theorem get_pruneConfig_of_vanishes {c r : Config}
    (h : MarkerVanishes (ofDict c) (ofDict r)) :
    (pruneConfig c r).get "_override_" = none := by
  obtain ⟨t, u, ht, hu, hvanishes⟩ := h
  rw [get_ofDict] at ht hu
  rw [get_pruneConfig, ht, hu]
  exact prunedValue_eq_none.mpr hvanishes

/-! ## Sections -/

/-- What is loaded for a section of the child and one of the base stays the same when the one of
the child is minimised.

A marked section replaces the one of the base. Either the marker goes: then what is left is
merged over the base and has to give back the section. Or the marker stays: then nothing else may
go. A section without a true marker is merged over a base section without its marker, so that a
marker of its own has to stay. All else is merged over the base. -/
def KeepsMeaning (c r : Value) : Prop :=
  match isOverride c && r.isDict, isOverride r && c.isDict with
  | true, _ =>
    (MarkerVanishes c r ∧ Restored (c.erase "_override_") (r.erase "_override_")) ∨
      (¬MarkerVanishes c r ∧ ∀ key t u, (c.erase "_override_").get key = some t →
        (r.erase "_override_").get key = some u → Untouched t u)
  | false, true =>
    (∀ t, c.get "_override_" = some t → hasContent t) ∧
      Keeps (c.erase "_override_") (r.erase "_override_")
  | false, false => Keeps c r

/-- What is loaded under a key of the inherited config. -/
def loadedValue (p : Value) : Option Value → Value
  | none => p
  | some s => if isOverride s then s.erase "_override_" else p.merge s

theorem get_mergeWithOverride (baseConfig overrideConfig : Config) (key : String) :
    (mergeWithOverride baseConfig overrideConfig).get key = match baseConfig.get key with
      | some p => some (loadedValue p (overrideConfig.get key))
      | none => (overrideConfig.get key).map popOverride := by
  rw [mergeWithOverride, DataDict.get_merge, DataDict.get_filter, DataDict.get_mapVals]
  cases hs : overrideConfig.get key with
  | none => cases baseConfig.get key <;> rfl
  | some s =>
    by_cases h : isOverride s = true
    · cases baseConfig.get key <;> simp [loadedValue, popOverride, h]
    · cases baseConfig.get key <;> simp [loadedValue, popOverride, h]

/-- A value that is inherited from a file that has `r`. -/
structure Inherited (p r : Value) : Prop where
  replaced : isOverride r = true → p = r.erase "_override_"
  extended : isOverride r = false → Extends p r

theorem Inherited.exists_dict {p : Value} {r : Config} (hp : Inherited p (ofDict r)) :
    ∃ d, p = ofDict d := by
  by_cases hr : isOverride (ofDict r) = true
  · exact ⟨r.erase "_override_", hp.replaced hr⟩
  · obtain ⟨d, hd, -⟩ := (hp.extended (by simpa using hr)).exists_dict
    exact ⟨d, hd⟩

theorem loadedValue_eq_elim {p : Value} {w : Option Value}
    (h : ∀ s, w = some s → isOverride s = false) : loadedValue p w = w.elim p p.merge := by
  cases w with
  | none => rfl
  | some s => simp [loadedValue, h s rfl]

theorem loadedValue_prunedValue_ofDict (p c r : Config) :
    loadedValue (ofDict p) (prunedValue (ofDict c) (ofDict r)) =
      if isOverride (ofDict (pruneConfig c r)) then ofDict ((pruneConfig c r).erase "_override_")
      else ofDict (p.merge (pruneConfig c r)) := by
  rw [prunedValue_ofDict]
  by_cases h : (pruneConfig c r).keys = ∅
  · rw [if_pos h, DataDict.keys_eq_empty.mp h]
    simp [isOverride_ofDict, loadedValue]
  · simp [loadedValue, h]

theorem not_isOverride_pruneConfig {c : Config} (h : isOverride (ofDict c) = false)
    (r : Config) : isOverride (ofDict (pruneConfig c r)) = false := by
  by_cases hvanishes : MarkerVanishes (ofDict c) (ofDict r)
  · rw [isOverride_ofDict, get_pruneConfig_of_vanishes hvanishes]
    rfl
  · rw [isOverride_pruneConfig hvanishes, h]

/-- Sections of which the one of the child is marked. -/
theorem keepsMeaning_marked {p : Value} {c r : Config} (hp : Inherited p (ofDict r))
    (hc : isOverride (ofDict c) = true) :
    loadedValue p (prunedValue (ofDict c) (ofDict r)) = loadedValue p (some (ofDict c)) ↔
      KeepsMeaning (ofDict c) (ofDict r) := by
  obtain ⟨p, rfl⟩ := hp.exists_dict
  rw [loadedValue_prunedValue_ofDict, loadedValue, if_pos hc, KeepsMeaning, hc, isDict_ofDict,
    Bool.and_self]
  simp only [erase_ofDict, get_ofDict]
  by_cases hvanishes : MarkerVanishes (ofDict c) (ofDict r)
  · have hr : isOverride (ofDict r) = true := by
      obtain ⟨t, u, ht, hu, hvanishes⟩ := hvanishes
      rw [get_ofDict] at ht hu
      rw [isOverride_ofDict, ht] at hc
      rw [isOverride_ofDict, hu]
      exact truthy_of_vanishes hvanishes hc
    have hp := hp.replaced hr
    rw [erase_ofDict, ofDict_inj] at hp
    have hnone := get_pruneConfig_of_vanishes hvanishes
    have herase : pruneConfig c r =
        pruneConfig (c.erase "_override_") (r.erase "_override_") := by
      rw [← pruneConfig_erase]
      refine DataDict.ext_get fun k => ?_
      by_cases hk : k = "_override_" <;> simp [hk, hnone]
    rw [isOverride_ofDict, hnone, hp]
    simp only [Option.any_none, Bool.false_eq_true, if_false, ofDict_inj, hvanishes, true_and,
      not_true_eq_false, false_and, or_false]
    rw [herase, merge_pruneConfig_eq_iff]
  · rw [isOverride_pruneConfig hvanishes, hc, if_pos rfl, ofDict_inj, pruneConfig_erase,
      pruneConfig_eq_self]
    simp [hvanishes, prunedValue_eq_self]

/-- Sections of which only the one of the base is marked. -/
theorem keepsMeaning_base {p : Value} {c r : Config} (hp : Inherited p (ofDict r))
    (hc : isOverride (ofDict c) = false) (hr : isOverride (ofDict r) = true) :
    loadedValue p (prunedValue (ofDict c) (ofDict r)) = loadedValue p (some (ofDict c)) ↔
      KeepsMeaning (ofDict c) (ofDict r) := by
  obtain ⟨p, rfl⟩ := hp.exists_dict
  have hp := hp.replaced hr
  rw [erase_ofDict, ofDict_inj] at hp
  subst hp
  rw [loadedValue_prunedValue_ofDict, not_isOverride_pruneConfig hc, loadedValue, KeepsMeaning,
    hc, hr]
  simp only [Bool.false_eq_true, if_false, Bool.false_and, isDict_ofDict, Bool.and_self,
    merge_ofDict, ofDict_inj, erase_ofDict, get_ofDict]
  rw [merge_pruneConfig_iff, Keeps, everywhere_ofDict, true_and]
  obtain ⟨marker, hmarker, htruthy⟩ := exists_of_isOverride hr
  have hfalse : ∀ t, c.get "_override_" = some t → truthy t = false := by
    intro t ht
    simpa [isOverride_ofDict, ht] using hc
  refine ⟨fun h => ⟨fun t ht => ?_, fun k t u ht hu => ?_⟩, fun h k t u ht hu => ?_⟩
  · have hw := h _ t marker ht hmarker
    rw [DataDict.get_erase, if_pos rfl] at hw
    exact (prunedValue_eq_self_of_truthy (hfalse t ht) htruthy).mp hw
  · rw [DataDict.get_erase] at ht hu
    by_cases hk : k = "_override_"
    · simp [hk] at ht
    · rw [if_neg hk] at ht hu
      have hw := h k t u ht hu
      rw [DataDict.get_erase, if_neg hk, hu] at hw
      exact (merge_prunedValue_iff (Extends.refl u)).mp hw
  · rw [DataDict.get_erase]
    by_cases hk : k = "_override_"
    · subst hk
      obtain rfl : marker = u := Option.some.inj (hmarker.symm.trans hu)
      rw [if_pos rfl]
      exact (prunedValue_eq_self_of_truthy (hfalse t ht) htruthy).mpr (h.1 t ht)
    · rw [if_neg hk, hu]
      exact (merge_prunedValue_iff (Extends.refl u)).mpr (h.2 k t u (by simpa [hk] using ht)
        (by simpa [hk] using hu))

/-- Sections of which none is marked. -/
theorem keepsMeaning_unmarked {p : Value} {c r : Config} (hp : Extends p (ofDict r))
    (hc : isOverride (ofDict c) = false) (hr : isOverride (ofDict r) = false) :
    loadedValue p (prunedValue (ofDict c) (ofDict r)) = loadedValue p (some (ofDict c)) ↔
      KeepsMeaning (ofDict c) (ofDict r) := by
  rw [loadedValue_eq_elim, loadedValue_eq_elim]
  · simpa [KeepsMeaning, hc, hr] using merge_prunedValue_iff hp
  · intro s hs
    cases hs
    exact hc
  · intro s hs
    rw [prunedValue_ofDict] at hs
    split at hs
    · cases hs
    · cases hs
      exact not_isOverride_pruneConfig hc r

theorem keepsMeaning_of_not_dicts {c r : Value} (h : (c.isDict && r.isDict) = false) :
    KeepsMeaning c r ↔ LeafKept c r := by
  have hc : (isOverride c && r.isDict) = false := by
    by_cases hdict : c.isDict = true
    · simp [show r.isDict = false by simpa [hdict] using h]
    · simp [isOverride_of_not_dict (Bool.not_eq_true _ ▸ hdict)]
  have hr : (isOverride r && c.isDict) = false := by
    by_cases hdict : r.isDict = true
    · simp [show c.isDict = false by simpa [hdict] using h]
    · simp [isOverride_of_not_dict (Bool.not_eq_true _ ▸ hdict)]
  rw [KeepsMeaning, hc, hr]
  exact everywhere_of_not_dicts h

/-- A value of the child that is not a section over a section of the base. -/
theorem keepsMeaning_over_section {p c : Value} {r : Config} (hp : Inherited p (ofDict r))
    (hc : c.isDict = false) :
    loadedValue p (prunedValue c (ofDict r)) = loadedValue p (some c) ↔
      KeepsMeaning c (ofDict r) := by
  obtain ⟨p, rfl⟩ := hp.exists_dict
  have hdicts : (c.isDict && (ofDict r).isDict) = false := by simp [hc]
  have heq : pyEq c (ofDict r) = false := by
    by_contra heq
    rw [isDict_of_pyEq (by simpa using heq)] at hc
    cases hc
  rw [keepsMeaning_of_not_dicts hdicts, LeafKept, prunedValue_of_not_dicts hdicts, heq]
  by_cases hcontent : hasContent c = true
  · simp [hcontent]
  · simp only [hcontent, Bool.false_eq_true, if_false, iff_false]
    rw [loadedValue, loadedValue, isOverride_of_not_dict hc, if_neg Bool.false_ne_true,
      merge_of_not_dicts (by simp [hc])]
    rintro rfl
    cases hc

/-- A value over one that is not a section. -/
theorem keepsMeaning_over_value {p c r : Value} (hp : Extends p r) (hr : r.isDict = false) :
    loadedValue p (prunedValue c r) = loadedValue p (some c) ↔ KeepsMeaning c r := by
  have hdicts : (c.isDict && r.isDict) = false := by simp [hr]
  rw [keepsMeaning_of_not_dicts hdicts]
  by_cases hc : isOverride c = true
  · obtain ⟨u, hu, -⟩ := exists_of_isOverride hc
    have hdict : c.isDict = true := by
      by_contra hdict
      rw [get_of_not_dict (by simpa using hdict)] at hu
      cases hu
    have heq : pyEq c r = false := by
      by_contra heq
      rw [isDict_of_pyEq (by simpa using heq), hr] at hdict
      cases hdict
    have hcontent : hasContent c = true := by
      obtain ⟨c, rfl⟩ := isDict_iff.mp hdict
      have hkeys : c.keys ≠ ∅ := Finset.ne_empty_of_mem (DataDict.get_eq_some.mp hu).1
      simp [hasContent, ofDict, hkeys]
    rw [prunedValue_of_not_dicts hdicts, LeafKept, heq]
    simp [hcontent]
  · rw [Bool.not_eq_true] at hc
    rw [loadedValue_eq_elim, loadedValue_eq_elim]
    · exact (merge_prunedValue_iff hp).trans (everywhere_of_not_dicts hdicts)
    · rintro s ⟨⟩
      exact hc
    · intro s hs
      rw [prunedValue_of_not_dicts hdicts] at hs
      split at hs
      · cases hs
      · split at hs
        · cases hs
          exact hc
        · cases hs

/-- What is loaded under a key of the base stays the same, exactly when this is what the two
values allow. -/
theorem loadedValue_prunedValue_iff {p c r : Value} (hp : Inherited p r) :
    loadedValue p (prunedValue c r) = loadedValue p (some c) ↔ KeepsMeaning c r := by
  by_cases hr : r.isDict = true
  · obtain ⟨r, rfl⟩ := isDict_iff.mp hr
    by_cases hc : c.isDict = true
    · obtain ⟨c, rfl⟩ := isDict_iff.mp hc
      by_cases hoc : isOverride (ofDict c) = true
      · exact keepsMeaning_marked hp hoc
      · rw [Bool.not_eq_true] at hoc
        by_cases hor : isOverride (ofDict r) = true
        · exact keepsMeaning_base hp hoc hor
        · rw [Bool.not_eq_true] at hor
          exact keepsMeaning_unmarked (hp.extended hor) hoc hor
    · exact keepsMeaning_over_section hp (by simpa using hc)
  · rw [Bool.not_eq_true] at hr
    exact keepsMeaning_over_value (hp.extended (isOverride_of_not_dict hr)) hr

end NemoRL.Tools.ConfigCli
