import NemoRL.Tools.Minimize

/-!
# Minimised recipes

What a recipe inherits comes from its base: a marked section without its marker, and everything
else with what the base itself inherits merged under it. This holds for the base as it is loaded
and for the base as it stands in its file, which are the two configs that a recipe is compared
with. So a minimised recipe is loaded as before, exactly when each section keeps its meaning.

To minimise a recipe once more changes nothing: what is left after the first time is different
from the base.

## Main results

* `inherited_loaded`, `inherited_file` — what is inherited from a base.
* `minimizeOne_loads_iff` — when the minimised recipe is loaded as the recipe was.
* `minimizeOne_idempotent` — a minimised recipe is minimised to itself.
-/

namespace NemoRL.Tools.ConfigCli

open NemoRL.Lib DataTree

/-! ## What is inherited -/

/-- No value is a section with a true marker. -/
def Unmarked (d : Config) : Prop := ∀ key t, d.get key = some t → isOverride t = false

theorem isOverride_popOverride (t : Value) : isOverride (popOverride t) = false := by
  by_cases h : isOverride t = true
  · rw [popOverride, if_pos h]
    by_cases hdict : t.isDict = true
    · obtain ⟨d, rfl⟩ := isDict_iff.mp hdict
      rw [erase_ofDict, isOverride_ofDict, DataDict.get_erase, if_pos rfl]
      rfl
    · rw [isOverride_of_not_dict (by simpa using hdict)] at h
      cases h
  · rw [popOverride, if_neg h]
    simpa using h

theorem not_truthy_merge {t u : Value} (ht : truthy t = false) (hu : truthy u = false) :
    truthy (t.merge u) = false := by
  by_cases h : (t.isDict && u.isDict) = false
  · rw [merge_of_not_dicts h, hu]
  · rw [Bool.not_eq_false, Bool.and_eq_true] at h
    obtain ⟨t, rfl⟩ := isDict_iff.mp h.1
    obtain ⟨u, rfl⟩ := isDict_iff.mp h.2
    have hkeys : u.keys = ∅ := by simpa [truthy, ofDict] using hu
    rw [merge_ofDict, DataDict.keys_eq_empty.mp hkeys, DataDict.merge_empty, ht]

theorem not_isOverride_merge {t u : Value} (ht : isOverride t = false)
    (hu : isOverride u = false) : isOverride (t.merge u) = false := by
  by_cases h : (t.isDict && u.isDict) = false
  · rw [merge_of_not_dicts h, hu]
  · rw [Bool.not_eq_false, Bool.and_eq_true] at h
    obtain ⟨t, rfl⟩ := isDict_iff.mp h.1
    obtain ⟨u, rfl⟩ := isDict_iff.mp h.2
    rw [isOverride_ofDict] at ht hu
    rw [merge_ofDict, isOverride_ofDict, DataDict.get_merge]
    cases ht' : t.get "_override_" with
    | none => cases hu' : u.get "_override_" <;> simp_all
    | some a =>
      cases hu' : u.get "_override_" with
      | none => simpa [ht'] using ht
      | some b =>
        rw [ht', Option.any_some] at ht
        rw [hu', Option.any_some] at hu
        exact not_truthy_merge ht hu

theorem Unmarked.mergeWithOverride {baseConfig : Config} (h : Unmarked baseConfig)
    (overrideConfig : Config) : Unmarked (mergeWithOverride baseConfig overrideConfig) := by
  intro key t ht
  rw [get_mergeWithOverride] at ht
  cases hs : overrideConfig.get key with
  | none =>
    cases hp : baseConfig.get key with
    | none => simp [hs, hp] at ht
    | some p =>
      simp only [hs, hp, loadedValue, Option.some.injEq] at ht
      exact ht ▸ h key p hp
  | some s =>
    cases hp : baseConfig.get key with
    | none =>
      simp only [hs, hp, Option.map_some, Option.some.injEq] at ht
      exact ht ▸ isOverride_popOverride s
    | some p =>
      simp only [hs, hp, Option.some.injEq] at ht
      by_cases hover : isOverride s = true
      · rw [loadedValue, if_pos hover] at ht
        have hpop := isOverride_popOverride s
        rw [popOverride, if_pos hover] at hpop
        exact ht ▸ hpop
      · rw [loadedValue, if_neg hover] at ht
        exact ht ▸ not_isOverride_merge (h key p hp) (by simpa using hover)

theorem Unmarked.empty : Unmarked .empty := by
  intro key t ht
  rw [DataDict.get_empty] at ht
  cases ht

theorem Unmarked.foldl (configs : List Config) {baseConfig : Config} (h : Unmarked baseConfig) :
    Unmarked (configs.foldl ConfigCli.mergeWithOverride baseConfig) := by
  induction configs generalizing baseConfig with
  | nil => exact h
  | cons config configs ih => exact ih (h.mergeWithOverride config)

/-- A config from which nothing else is inherited. -/
theorem inherited_loaded {baseConfig : Config} {key : String} {r : Value}
    (hr : baseConfig.get key = some r) :
    ∃ p, (mergeWithOverride .empty baseConfig).get key = some p ∧ Inherited p r := by
  refine ⟨popOverride r, by rw [get_mergeWithOverride, DataDict.get_empty, hr]; rfl, ?_, ?_⟩
  · intro h
    rw [popOverride, if_pos h]
  · intro h
    rw [popOverride, if_neg (by simp [h])]
    exact Extends.refl r

/-- A config that is merged over one without marked sections. -/
theorem inherited_merged {parents settings : Config} (h : Unmarked parents) {key : String}
    {r : Value} (hr : settings.get key = some r) :
    ∃ p, (mergeWithOverride .empty (mergeWithOverride parents settings)).get key = some p ∧
      Inherited p r := by
  have hunmarked := h.mergeWithOverride settings
  obtain ⟨t, ht, htext⟩ : ∃ t, (mergeWithOverride parents settings).get key = some t ∧
      Inherited t r := by
    rw [get_mergeWithOverride, hr]
    cases hp : parents.get key with
    | none =>
      refine ⟨popOverride r, rfl, fun h => by rw [popOverride, if_pos h], fun h => ?_⟩
      rw [popOverride, if_neg (by simp [h])]
      exact Extends.refl r
    | some p =>
      refine ⟨_, rfl, fun h => by rw [loadedValue, if_pos h], fun h => ?_⟩
      rw [loadedValue, if_neg (by simp [h])]
      exact Extends.merge p r
  refine ⟨popOverride t, by rw [get_mergeWithOverride, DataDict.get_empty, ht]; rfl, ?_⟩
  rw [popOverride, if_neg (by simp [hunmarked key t ht])]
  exact htext

/-- What is inherited from a recipe, for what stands in its file. -/
theorem inherited_file (base : Recipe) {key : String} (hkey : key ≠ "defaults") {r : Value}
    (hr : base.file.get key = some r) :
    ∃ p, (mergeWithOverride .empty base.loadConfigWithInheritance).get key = some p ∧
      Inherited p r := by
  cases base with
  | root settings => exact inherited_loaded hr
  | child path base settings =>
    rw [Recipe.file, DataDict.get_set, if_neg hkey] at hr
    exact inherited_merged (Unmarked.empty.mergeWithOverride _) hr
  | children n paths bases settings =>
    rw [Recipe.file, DataDict.get_set, if_neg hkey] at hr
    exact inherited_merged (Unmarked.foldl _ Unmarked.empty) hr

/-! ## Minimised recipes -/

/-- The config a child is compared with: an explicit base is not loaded. -/
def comparedWith (base : Recipe) (isExplicit : Bool) : Config :=
  if isExplicit then base.file else base.loadConfigWithInheritance

theorem inherited_comparedWith (base : Recipe) (isExplicit : Bool) {key : String}
    (hkey : key ≠ "defaults") {r : Value} (hr : (comparedWith base isExplicit).get key = some r) :
    ∃ p, (mergeWithOverride .empty base.loadConfigWithInheritance).get key = some p ∧
      Inherited p r := by
  cases isExplicit with
  | true => exact inherited_file base hkey hr
  | false => exact inherited_loaded hr

/-- Settings that are merged over an inherited config, before and after they are pruned. -/
theorem mergeWithOverride_pruneConfig_iff {inherited config base : Config}
    (h : ∀ key c r, config.get key = some c → base.get key = some r →
      ∃ p, inherited.get key = some p ∧ Inherited p r) :
    mergeWithOverride inherited (pruneConfig config base) = mergeWithOverride inherited config ↔
      ∀ key c r, config.get key = some c → base.get key = some r → KeepsMeaning c r := by
  rw [DataDict.ext_get_iff]
  refine forall_congr' fun key => ?_
  rw [get_mergeWithOverride inherited config, get_mergeWithOverride, get_pruneConfig]
  cases hc : config.get key with
  | none => simp
  | some c =>
    cases hr : base.get key with
    | none => simp
    | some r =>
      obtain ⟨p, hp, hinherited⟩ := h key c r hc hr
      rw [hp]
      simpa using loadedValue_prunedValue_iff (c := c) hinherited

theorem load_prune_iff (base : Recipe) (isExplicit : Bool) (settings : Settings) :
    mergeWithOverride (mergeWithOverride .empty base.loadConfigWithInheritance)
        (settings.prune (comparedWith base isExplicit)).entries =
      mergeWithOverride (mergeWithOverride .empty base.loadConfigWithInheritance)
        settings.entries ↔
      ∀ key c r, settings.entries.get key = some c →
        (comparedWith base isExplicit).get key = some r → KeepsMeaning c r := by
  refine mergeWithOverride_pruneConfig_iff fun key c r hc hr => ?_
  refine inherited_comparedWith base isExplicit ?_ hr
  rintro rfl
  rw [settings.noDefaults] at hc
  cases hc

theorem get_oneSection (layers : Config) :
    (DataDict.set .empty "model" (.ofDict layers) : Config).get "defaults" = none := by
  simp

/-- Settings with one section. -/
def oneSection (layers : Config) : Settings where
  entries := DataDict.set .empty "model" (.ofDict layers)
  noDefaults := get_oneSection layers

/-- A base with two values in a section. -/
def twoLayers : Config :=
  (DataDict.set .empty "layers" (.scalar (.int 2))).set "heads" (.scalar (.int 4))

/-- A section that replaces the one of the base and has one of its values. -/
def oneLayer : Config :=
  (DataDict.set .empty "layers" (.scalar (.int 2))).set "_override_" (.scalar (.bool true))

/-- A section that replaces the one of the base loses the values that the two have in common. -/
theorem minimizeOne_loses_override :
    ∃ written, minimizeOne "child.yaml"
        (.child "base.yaml" (.root (oneSection twoLayers)) (oneSection oneLayer)) none =
          .ok written ∧
      written.loadConfigWithInheritance ≠ (Recipe.child "base.yaml"
        (.root (oneSection twoLayers)) (oneSection oneLayer)).loadConfigWithInheritance := by
  refine ⟨_, rfl, fun h => ?_⟩
  have hkeeps := (load_prune_iff (.root (oneSection twoLayers)) false (oneSection oneLayer)).mp h
    "model" (.ofDict oneLayer) (.ofDict twoLayers) (by simp [oneSection])
    (by simp [comparedWith, Recipe.loadConfigWithInheritance, oneSection])
  have hmarked : isOverride (ofDict oneLayer) = true := by
    simp [isOverride_ofDict, oneLayer, truthy, Scalar.truthy]
  rw [KeepsMeaning, hmarked, isDict_ofDict, Bool.and_self] at hkeeps
  obtain ⟨⟨t, u, -, hu, -⟩, -⟩ | ⟨-, huntouched⟩ := hkeeps
  · simp [twoLayers] at hu
  · have hlayers := huntouched "layers" (.scalar (.int 2)) (.scalar (.int 2))
      (by simp [oneLayer]) (by simp [twoLayers])
    simp [Untouched, Everywhere, pyEq, Scalar.pyEq, Scalar.number] at hlayers

/-! ## Minimising once more -/

theorem prunedValue_prunedValue {c r s : Value} (h : prunedValue c r = some s) :
    prunedValue s r = some s := by
  induction c, r using induction_pair generalizing s with
  | dicts c r ih =>
    rw [prunedValue_ofDict] at h
    split at h
    · cases h
    · case isFalse hkeys =>
      cases h
      have hself : pruneConfig (pruneConfig c r) r = pruneConfig c r := by
        refine pruneConfig_eq_self.mpr fun k t u ht hu => ?_
        rw [get_pruneConfig, hu] at ht
        cases hc : c.get k with
        | none => simp [hc] at ht
        | some v => exact ih k v u hc hu (by simpa [hc] using ht)
      rw [prunedValue_ofDict, hself, if_neg hkeys]
  | other c r hdicts =>
    rw [prunedValue_of_not_dicts hdicts] at h
    split at h
    · cases h
    · split at h
      · case isFalse.isTrue heq hcontent =>
        cases h
        rw [prunedValue_of_not_dicts hdicts, if_neg heq, if_pos hcontent]
      · cases h

theorem pruneConfig_pruneConfig (c r : Config) :
    pruneConfig (pruneConfig c r) r = pruneConfig c r := by
  refine pruneConfig_eq_self.mpr fun k t u ht hu => ?_
  rw [get_pruneConfig, hu] at ht
  cases hc : c.get k with
  | none => simp [hc] at ht
  | some v => exact prunedValue_prunedValue (by simpa [hc] using ht)

theorem Settings.prune_prune (settings : Settings) (base : Config) :
    (settings.prune base).prune base = settings.prune base := by
  rw [prune, mk.injEq]
  exact pruneConfig_pruneConfig settings.entries base

/-- A recipe that was written by the command is written again as it is. -/
theorem minimizeOne_idempotent (childPath : String) (child : Recipe)
    (baseOverride : Option (String × Recipe)) {written : Recipe}
    (h : minimizeOne childPath child baseOverride = .ok written) :
    minimizeOne childPath written baseOverride = .ok written := by
  cases baseOverride with
  | some override =>
    obtain ⟨path, base⟩ := override
    cases h
    rw [minimizeOne, Recipe.settings, Settings.prune_prune]
  | none =>
    cases child with
    | root => cases h
    | children => cases h
    | child path base settings =>
      cases h
      exact congrArg (fun s => Except.ok (Recipe.child path base s)) (settings.prune_prune _)

/-- The recipe that is written for `oneLayer` is not changed any more. -/
theorem minimizeOne_idempotent_oneLayer :
    minimizeOne "child.yaml" (.child "base.yaml" (.root (oneSection twoLayers))
        ((oneSection oneLayer).prune (oneSection twoLayers).entries)) none =
      .ok (.child "base.yaml" (.root (oneSection twoLayers))
        ((oneSection oneLayer).prune (oneSection twoLayers).entries)) :=
  minimizeOne_idempotent "child.yaml"
    (.child "base.yaml" (.root (oneSection twoLayers)) (oneSection oneLayer)) none rfl

end NemoRL.Tools.ConfigCli
