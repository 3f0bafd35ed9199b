import NemoRL.Error
import NemoRL.Lib.DataTree
import Mathlib.Data.Rat.Defs

/-!
# The command line tool for recipes

A recipe is a config file: settings, and under `defaults` the path of a file that it inherits
from, or a list of paths. To load it the files it inherits from are merged one after another and
its settings are merged over them. A section with a true `_override_` replaces the inherited
section, and the marker is taken out. Only sections at the top level are looked at for it.

To minimise a recipe, what its settings have in common with the base is taken out: the recipe
named under `defaults`, loaded, or an explicit base as it stands in its file. What is equal goes,
and so do the empty dictionaries and lists.

Dictionaries are merged recursively, and everything else is replaced. A file holds what was
written to it, and what is written there in the place of a value, as an interpolation, is a text.
A scalar is compared as `==` compares it, for which `true` is `1` and a float can be an integer.
A path is resolved with the recipe.

## Main definitions

* `Scalar.pyEq`, `pyEq` — what `==` says about two values.
* `mergeWithOverride` — merge settings over a config.
* `Recipe.loadConfigWithInheritance` — the config a recipe stands for.
* `pruneEqual` — what is left of settings without what they have in common with a base.
* `minimizeOne` — the recipe that is written for a recipe.
-/

namespace NemoRL.Tools.ConfigCli

open NemoRL.Lib

/-! ## Values -/

/-- A floating point number. -/
inductive PyFloat
  | finite (value : ℚ)
  | negZero
  | inf (negative : Bool)
  | nan
  deriving DecidableEq

/-- A scalar of a config file. -/
inductive Scalar
  | none
  | bool (value : Bool)
  | int (value : ℤ)
  | float (value : PyFloat)
  | str (value : String)
  deriving DecidableEq

namespace Scalar

/-- The number that a scalar is compared as. -/
def number : Scalar → Option ℚ
  | .bool value => some (if value then 1 else 0)
  | .int value => some value
  | .float (.finite value) => some value
  | .float .negZero => some 0
  | _ => Option.none

/-- `==` on scalars. -/
def pyEq (a b : Scalar) : Bool :=
  match a.number, b.number with
  | some x, some y => decide (x = y)
  | .none, .none => decide (a = b) && decide (a ≠ .float .nan)
  | _, _ => false

/-- `==` on scalars inside of lists and dictionaries: one object is equal to itself. There is one
nan for all files. -/
def itemEq (a b : Scalar) : Bool := decide (a = b) || a.pyEq b

/-- The truth value of a scalar. -/
def truthy : Scalar → Bool
  | .none => false
  | .bool value => value
  | .int value => decide (value ≠ 0)
  | .float (.finite value) => decide (value ≠ 0)
  | .float .negZero => false
  | .float _ => true
  | .str value => decide (value ≠ "")

end Scalar

/-- What a key of a config stands for. -/
abbrev Value := DataTree String Scalar

/-- The keys and values of a config. -/
abbrev Config := DataDict String Scalar

/-- `==` on values. -/
def pyEq : Value → Value → Bool
  | .scalar a, .scalar b => a.pyEq b
  | a, b => a.eqBy Scalar.itemEq b

/-- The truth value of a value. -/
def truthy : Value → Bool
  | .scalar value => value.truthy
  | .list n _ => decide (0 < n)
  | .dict keys _ => decide (keys ≠ ∅)

/-- A value is neither `{}` nor `[]`. -/
def hasContent : Value → Bool
  | .scalar _ => true
  | .list n _ => decide (0 < n)
  | .dict keys _ => decide (keys ≠ ∅)

/-! ## Loading -/

/-- A section with a true marker. -/
def isOverride (v : Value) : Bool := (v.get "_override_").any truthy

/-- A value without a true marker. -/
def popOverride (v : Value) : Value := if isOverride v then v.erase "_override_" else v

/-- Merge configs, where a marked section replaces the one in the base. -/
def mergeWithOverride (baseConfig overrideConfig : Config) : Config :=
  (baseConfig.filter fun key => !(overrideConfig.get key).any isOverride).merge
    (overrideConfig.mapVals popOverride)

/-- The keys of a config file next to `defaults`. -/
structure Settings where
  entries : Config
  /-- The files that are inherited from are not among the settings. -/
  noDefaults : entries.get "defaults" = none

/-- A config file with the files it inherits from. -/
inductive Recipe
  /-- There is no `defaults`. -/
  | root (settings : Settings)
  /-- `defaults` is a path. -/
  | child (path : String) (base : Recipe) (settings : Settings)
  /-- `defaults` is a list of paths. -/
  | children (n : ℕ) (paths : Fin n → String) (bases : Fin n → Recipe) (settings : Settings)

namespace Recipe

/-- What is written next to `defaults`. -/
def settings : Recipe → Settings
  | .root settings => settings
  | .child _ _ settings => settings
  | .children _ _ _ settings => settings

/-- What is written in the file. -/
def file : Recipe → Config
  | .root settings => settings.entries
  | .child path _ settings => settings.entries.set "defaults" (.scalar (.str path))
  | .children n paths _ settings =>
    settings.entries.set "defaults" (.list n fun i => .scalar (.str (paths i)))

/-- Merge the files that are inherited from and the settings over them. -/
def loadConfigWithInheritance : Recipe → Config
  | .root settings => settings.entries
  | .child _ base settings =>
    let baseConfig := mergeWithOverride .empty base.loadConfigWithInheritance
    mergeWithOverride baseConfig settings.entries
  | .children _ _ bases settings =>
    let baseConfig := (List.ofFn fun i => (bases i).loadConfigWithInheritance).foldl
      mergeWithOverride .empty
    mergeWithOverride baseConfig settings.entries

end Recipe

/-! ## Minimising -/

/-- The value without what is equal in the base, or nothing where the two are equal. A list is
kept or removed as a whole. What is left of a dictionary is a dictionary, from which the keys
with nothing and with empty values are dropped. -/
def pruneEqual : Value → Value → Option Value
  | .dict keys vals, .dict keys' vals' =>
    some (.ofDict (.ofOption keys fun key =>
      if h : key.1 ∈ keys' then (pruneEqual (vals key) (vals' ⟨key, h⟩)).filter hasContent
      else some (vals key)))
  | a, b => if pyEq a b then none else some a

/-- What is left of the value of a key that the base has as well. -/
def prunedValue (a b : Value) : Option Value := (pruneEqual a b).filter hasContent

/-- The settings without what is equal in the base. -/
def pruneConfig (a b : Config) : Config :=
  .ofOption a.keys fun key =>
    match b.get key with
    | some value => prunedValue (a.vals key) value
    | none => some (a.vals key)

/-- The dictionaries that are left are those of the configs. -/
@[simp] theorem pruneEqual_ofDict (a b : Config) :
    pruneEqual (.ofDict a) (.ofDict b) = some (.ofDict (pruneConfig a b)) := by
  refine congrArg (fun f => some (DataTree.ofDict (DataDict.ofOption a.keys f)))
    (funext fun key => ?_)
  by_cases h : key.1 ∈ b.keys <;> simp [prunedValue, DataDict.get, h]

/-- The values that are left of settings. -/
theorem get_pruneConfig (a b : Config) (key : String) :
    (pruneConfig a b).get key = match a.get key, b.get key with
      | some value, some value' => prunedValue value value'
      | value, _ => value := by
  rw [pruneConfig, DataDict.get_ofOption]
  by_cases h : key ∈ a.keys
  · rw [dif_pos h, DataDict.get_of_mem a ⟨key, h⟩]
    cases b.get key <;> rfl
  · rw [dif_neg h, DataDict.get_eq_none.mpr h]

theorem get_pruneConfig_defaults (settings : Settings) (base : Config) :
    (pruneConfig settings.entries base).get "defaults" = none := by
  rw [get_pruneConfig, settings.noDefaults]

/-- The settings that are left. -/
def Settings.prune (settings : Settings) (base : Config) : Settings where
  entries := pruneConfig settings.entries base
  noDefaults := get_pruneConfig_defaults settings base

/-- The base that a recipe names, and its path there. -/
def inferBaseFromDefaults (childPath : String) : Recipe → Except PyError (String × Recipe)
  | .root _ => .error ⟨.valueError, s!"Config {childPath} has no 'defaults' key. " ++
      "Either add a 'defaults' key or use --base to specify the base config."⟩
  | .child path base _ => .ok (path, base)
  | .children .. => .error ⟨.valueError,
      s!"Config {childPath} has 'defaults' as a list, but only string defaults are " ++
      "supported for minimize. Please simplify to a single defaults entry or use --base."⟩

/-- Write a recipe without what it has in common with its base. An explicit base comes with its
path from the recipe, is compared as it stands in its file, and becomes the one that is inherited
from. -/
def minimizeOne (childPath : String) (child : Recipe) (baseOverride : Option (String × Recipe)) :
    Except PyError Recipe :=
  match baseOverride with
  | some (path, base) => .ok (.child path base (child.settings.prune base.file))
  | none => do
    let (path, base) ← inferBaseFromDefaults childPath child
    return .child path base (child.settings.prune base.loadConfigWithInheritance)

end NemoRL.Tools.ConfigCli
