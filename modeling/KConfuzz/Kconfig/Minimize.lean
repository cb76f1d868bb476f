import Mathlib.Data.List.Dedup
import Mathlib.Data.List.Sort
import KConfuzz.Bisect.Slice

/-!
# Minimizing a kernel config (`pkg/kconfig/minimize.go`, `config.go`)

The options that are set in the full config and not in the base config are searched for those that
a predicate depends on. The search is on leaf options, which no other missing option needs; a
candidate is made of the base config, all options of the full config that are no tristates, and
the given leaves with what they depend on. The base config itself stands for no leaves.
-/

namespace KConfuzz.Kconfig

open Bisect

def yes : String := "y"
def mod : String := "m"
def no : String := "---===[[[is not set]]]===---"

structure Config where
  name : String
  value : String
  comments : List String
deriving DecidableEq

/-- The options in order; `Map` has the same ones by name. -/
structure ConfigFile where
  configs : List Config
  comments : List String
  nodup : (configs.map Config.name).Nodup
deriving DecidableEq

/-- For an option that the Kconfig files describe, what `DependsOn` returns. -/
structure KConfig where
  dependsOn : String → Option (List String)

def ConfigFile.value (cf : ConfigFile) (name : String) : String :=
  match cf.configs.find? fun cfg => cfg.name = name with
  | none => no
  | some cfg => cfg.value

def Config.setIf (name val : String) (comments : List String) (cfg : Config) : Config :=
  if cfg.name = name then { cfg with value := val, comments := cfg.comments ++ comments } else cfg

lemma Config.name_setIf (name val : String) (comments : List String) (cfg : Config) :
    (cfg.setIf name val comments).name = cfg.name := by
  unfold Config.setIf
  split_ifs <;> rfl

def ConfigFile.set (cf : ConfigFile) (name val : String) : ConfigFile :=
  if h : name ∈ cf.configs.map Config.name then
    { configs := cf.configs.map (Config.setIf name val cf.comments)
      comments := []
      nodup := by
        have hnames : Config.name ∘ Config.setIf name val cf.comments = Config.name :=
          funext (Config.name_setIf name val cf.comments)
        rw [List.map_map, hnames]
        exact cf.nodup }
  else
    { configs := cf.configs ++ [⟨name, val, cf.comments⟩]
      comments := []
      nodup := by
        rw [List.map_append, List.map_singleton, ← List.concat_eq_append]
        exact cf.nodup.concat h }

section

variable (kconf : KConfig) (base full : ConfigFile)

def sortStrings (l : List String) : List String := l.insertionSort (· ≤ ·)

def missingConfigs : List String × List Config :=
  (sortStrings ((full.configs.filter fun cfg =>
      cfg.value = yes ∧ base.value cfg.name = no).map Config.name),
    full.configs.filter fun cfg => cfg.value ≠ no ∧ cfg.value ≠ yes ∧ cfg.value ≠ mod)

/-- An option with those it depends on that are missing in the base config. -/
def closure (cfg : String) : List String :=
  cfg :: ((kconf.dependsOn cfg).getD []).filter fun dep =>
    full.value dep ≠ no ∧ base.value dep = no

def addDependencies (configs : List String) : List String :=
  sortStrings (configs.flatMap (closure kconf base full)).dedup

def missingLeafConfigs : List String × List Config :=
  let missing := missingConfigs base full
  let needed := missing.1.flatMap fun config =>
    (addDependencies kconf base full [config]).filter (· ≠ config)
  (missing.1.filter (· ∉ needed), missing.2)

/-- The config with the given leaves. -/
def diffToConfig (other : List Config) (part : List String) : ConfigFile :=
  if part.length = 0 then base
  else
    (addDependencies kconf base full part).foldl (fun candidate cfg => candidate.set cfg yes)
      (other.foldl (fun candidate cfg => candidate.set cfg.name cfg.value) base)

variable {ε : Type} (pred : ConfigFile → Except ε Bool) (maxSteps : ℤ) (log2Exceeds : ℕ → ℤ → Bool)

def minimize : Option (Except (SliceError ε) ConfigFile) :=
  let leaves := missingLeafConfigs kconf base full
  let minimizePred part := pred (diffToConfig kconf base full leaves.2 part)
  match slice ⟨minimizePred, maxSteps, 0, log2Exceeds⟩ leaves.1 with
  | none => none
  | some (_, some err) => some (.error err)
  | some (result, none) => some (.ok (diffToConfig kconf base full leaves.2 result))

end

end KConfuzz.Kconfig
