import KConfuzz.Bisect.SliceTheorems
import KConfuzz.Kconfig.Minimize

/-!
# Which configs `Minimize` returns

The search assumes that the predicate holds for the config with all leaves, which is not tested
and need not be the full config. A config with fewer leaves is never the full one, so the result is
equivalent for all predicates exactly if the full config is rebuilt from all leaves.
-/

namespace KConfuzz.Kconfig

open Bisect List ConfigFile

variable {kconf : KConfig} {base full : ConfigFile} {name : String}

/-! ## Values -/

lemma ConfigFile.value_eq_of_mem {cf : ConfigFile} {cfg : Config} (h : cfg ∈ cf.configs) :
    cf.value cfg.name = cfg.value := by
  unfold value
  cases hfind : cf.configs.find? fun c => c.name = cfg.name with
  | none =>
    have hnone := find?_eq_none.mp hfind cfg h
    simp at hnone
  | some found =>
    have hname : found.name = cfg.name := by simpa using find?_some hfind
    rw [inj_on_of_nodup_map cf.nodup (mem_of_find?_eq_some hfind) h hname]

lemma ConfigFile.value_eq_no {cf : ConfigFile} (h : name ∉ cf.configs.map Config.name) :
    cf.value name = no := by
  unfold value
  rw [find?_eq_none.mpr]
  intro cfg hcfg
  have hne : cfg.name ≠ name := fun heq => h (heq ▸ mem_map_of_mem hcfg)
  simpa using hne

/-- Setting an option leaves the others alone. -/
lemma ConfigFile.value_set_of_ne (cf : ConfigFile) {other : String} (val : String)
    (h : name ≠ other) : (cf.set other val).value name = cf.value name := by
  by_cases hmem : name ∈ cf.configs.map Config.name
  · obtain ⟨cfg, hcfg, rfl⟩ := mem_map.mp hmem
    have hset : cfg ∈ (cf.set other val).configs := by
      unfold set
      split_ifs
      · refine mem_map.mpr ⟨cfg, hcfg, ?_⟩
        rw [Config.setIf, if_neg h]
      · exact mem_append_left _ hcfg
    rw [value_eq_of_mem hset, value_eq_of_mem hcfg]
  · rw [value_eq_no hmem, value_eq_no]
    unfold set
    split_ifs
    · have hnames : Config.name ∘ Config.setIf other val cf.comments = Config.name :=
        funext (Config.name_setIf other val cf.comments)
      rw [map_map, hnames]
      exact hmem
    · simpa [h] using hmem

lemma ConfigFile.value_foldl_set {α : Type} (f : α → String × String) {l : List α}
    (h : ∀ a ∈ l, name ≠ (f a).1) (cf : ConfigFile) :
    (l.foldl (fun cf a => cf.set (f a).1 (f a).2) cf).value name = cf.value name := by
  induction l generalizing cf with
  | nil => rfl
  | cons a l ih =>
    rw [foldl_cons, ih fun b hb => h b (mem_cons_of_mem _ hb)]
    exact cf.value_set_of_ne _ (h a mem_cons_self)

/-! ## Leaves -/

lemma mem_addDependencies {configs : List String} :
    name ∈ addDependencies kconf base full configs ↔
      ∃ cfg ∈ configs, name ∈ closure kconf base full cfg := by
  simp [addDependencies, sortStrings]

lemma mem_missingConfigs : name ∈ (missingConfigs base full).1 ↔
    ∃ cfg ∈ full.configs, (cfg.value = yes ∧ base.value cfg.name = no) ∧ cfg.name = name := by
  simp [missingConfigs, sortStrings, and_assoc]

/-- A leaf is set in the full config only, and no other missing option needs it. -/
lemma leaf_spec (h : name ∈ (missingLeafConfigs kconf base full).1) :
    full.value name = yes ∧ base.value name = no ∧
      (∀ cfg ∈ (missingLeafConfigs kconf base full).2, name ≠ cfg.name) ∧
      ∀ config ∈ (missingLeafConfigs kconf base full).1,
        name ∈ closure kconf base full config → name = config := by
  obtain ⟨hmissing, hleaf⟩ := mem_filter.mp h
  obtain ⟨cfg, hcfg, ⟨hyes, hno⟩, rfl⟩ := mem_missingConfigs.1 hmissing
  have hvalue := value_eq_of_mem hcfg
  refine ⟨hvalue.trans hyes, hno, fun other hother heq => ?_, fun config hconfig hclosure => ?_⟩
  · obtain ⟨hother, hne⟩ := mem_filter.mp hother
    have hsame := value_eq_of_mem hother
    rw [← heq, hvalue, hyes] at hsame
    exact (of_decide_eq_true hne).2.1 hsame.symm
  · by_contra hne
    refine of_decide_eq_true hleaf (mem_flatMap.mpr ⟨config, (mem_filter.mp hconfig).1, ?_⟩)
    exact mem_filter.mpr ⟨mem_addDependencies.2 ⟨config, mem_cons_self, hclosure⟩,
      decide_eq_true hne⟩

lemma nodup_leaves (kconf : KConfig) (base full : ConfigFile) :
    (missingLeafConfigs kconf base full).1.Nodup := by
  apply Nodup.filter
  refine (perm_insertionSort _ _).nodup_iff.mpr ?_
  exact full.nodup.sublist (filter_sublist.map _)

/-- A leaf that is not taken is not set. -/
lemma value_diffToConfig_of_leaf {part : List String}
    (hpart : part.Sublist (missingLeafConfigs kconf base full).1)
    (hleaf : name ∈ (missingLeafConfigs kconf base full).1) (hnot : name ∉ part) :
    (diffToConfig kconf base full (missingLeafConfigs kconf base full).2 part).value name = no := by
  obtain ⟨-, hno, hother, hneeded⟩ := leaf_spec hleaf
  unfold diffToConfig
  split_ifs
  · exact hno
  · rw [value_foldl_set (fun cfg => (cfg, yes)), value_foldl_set
      (fun cfg : Config => (cfg.name, cfg.value)) hother, hno]
    intro cfg hcfg heq
    obtain ⟨config, hconfig, hclosure⟩ := mem_addDependencies.1 hcfg
    have hname : name ∈ closure kconf base full config := heq ▸ hclosure
    rw [hneeded config (hpart.subset hconfig) hname] at hnot
    exact hnot hconfig

/-! ## The result -/

/-- With a predicate that does not fail, a config is returned: that of some leaves, which were
tested unless they are all. -/
lemma minimize_spec (kconf : KConfig) (base full : ConfigFile) (p : ConfigFile → Bool)
    (maxSteps : ℤ) (log2Exceeds : ℕ → ℤ → Bool) :
    let missing := missingLeafConfigs kconf base full
    ∃ part, part.Sublist missing.1 ∧
      minimize kconf base full (fun cfg => (.ok (p cfg) : Except Empty Bool)) maxSteps log2Exceeds =
        some (.ok (diffToConfig kconf base full missing.2 part)) ∧
      (part = missing.1 ∨ p (diffToConfig kconf base full missing.2 part) = true) := by
  intro missing
  let q part := p (diffToConfig kconf base full missing.2 part)
  let cfg : Bisect.Config String Empty := ⟨fun part => .ok (q part), maxSteps, 0, log2Exceeds⟩
  have hq : ∀ part, cfg.pred part = .ok (q part) := fun _ => rfl
  obtain ⟨ctx, err, hbisect⟩ := bisect_ok hq missing.1
  have hsound := (bisect_proper hbisect).sound
  have herr : err = none := by
    rcases (bisect_invariant (fun _ _ => trivial) (fun _ _ _ _ => trivial) hbisect).2 with h | h
    · exact h.1
    · exact absurd h.2.1 (lt_irrefl 0)
  subst herr
  refine ⟨ctx.elements, hsound.sublist, ?_, hsound.tested.imp id fun h => Except.ok.inj h.2⟩
  have hslice : slice cfg missing.1 = some (ctx.elements, none) := by
    rw [slice, hbisect]
  simp only [cfg, q, missing] at hslice
  simp only [minimize, hslice, missing]

open Classical in
/-- The equivalence for predicates that look at a part of a config from which the values of the
options can be told. -/
lemma minimize_view_iff {α : Type} (view : ConfigFile → α)
    (hview : ∀ cf cf', view cf = view cf' → cf.value = cf'.value) (kconf : KConfig)
    (base full : ConfigFile) (maxSteps : ℤ) (log2Exceeds : ℕ → ℤ → Bool) :
    (∀ p : α → Bool, p (view full) = true → ∃ config,
      minimize kconf base full (fun cfg => (.ok (p (view cfg)) : Except Empty Bool)) maxSteps
        log2Exceeds = some (.ok config) ∧ p (view config) = true) ↔
      view (diffToConfig kconf base full (missingLeafConfigs kconf base full).2
        (missingLeafConfigs kconf base full).1) = view full := by
  constructor
  · intro h
    -- the predicate that asks for what is seen of the full config
    obtain ⟨config, hconfig, hfull⟩ := h (fun v => decide (v = view full)) (by simp)
    obtain ⟨part, hsub, hpart, -⟩ := minimize_spec kconf base full
      (fun cfg => decide (view cfg = view full)) maxSteps log2Exceeds
    rw [hpart] at hconfig
    cases hconfig
    have heq := of_decide_eq_true hfull
    -- the part has all leaves: one that it does not have is not set
    have hall : (missingLeafConfigs kconf base full).1 ⊆ part := by
      intro leaf hleaf
      by_contra hnot
      have hvalue := value_diffToConfig_of_leaf hsub hleaf hnot
      rw [hview _ _ heq, (leaf_spec hleaf).1] at hvalue
      exact absurd hvalue (by decide)
    rwa [hsub.eq_of_length_le (subperm_of_subset (nodup_leaves kconf base full) hall).length_le] at heq
  · intro h p hp
    obtain ⟨part, -, hpart, htested⟩ := minimize_spec kconf base full (fun cfg => p (view cfg))
      maxSteps log2Exceeds
    refine ⟨_, hpart, htested.elim (fun hall => ?_) id⟩
    rw [hall, h]
    exact hp

/-- `Minimize` returns a config that satisfies the predicate, for every predicate that the full
config satisfies, exactly when the config with all leaves is the full one. For predicates that only
look at the values of options, it is enough that these are the same. -/
theorem minimize_equivalent_iff (kconf : KConfig) (base full : ConfigFile) (maxSteps : ℤ)
    (log2Exceeds : ℕ → ℤ → Bool) :
    ((∀ p : ConfigFile → Bool, p full = true → ∃ config,
      minimize kconf base full (fun cfg => (.ok (p cfg) : Except Empty Bool)) maxSteps
        log2Exceeds = some (.ok config) ∧ p config = true) ↔
      diffToConfig kconf base full (missingLeafConfigs kconf base full).2
        (missingLeafConfigs kconf base full).1 = full) ∧
    ((∀ p : (String → String) → Bool, p full.value = true → ∃ config,
      minimize kconf base full (fun cfg => (.ok (p cfg.value) : Except Empty Bool)) maxSteps
        log2Exceeds = some (.ok config) ∧ p config.value = true) ↔
      (diffToConfig kconf base full (missingLeafConfigs kconf base full).2
        (missingLeafConfigs kconf base full).1).value = full.value) := by
  refine ⟨?_, ?_⟩
  · exact minimize_view_iff id (fun _ _ h => congrArg _ h) kconf base full maxSteps log2Exceeds
  · exact minimize_view_iff ConfigFile.value (fun _ _ h => h) kconf base full maxSteps log2Exceeds

/-- A full config with one option, which is no tristate. -/
def stringConfig : ConfigFile := ⟨[⟨"CMDLINE", "\"x\"", []⟩], [], by decide⟩

/-- There are no leaves, and the empty base config is returned although nothing was tested. -/
theorem minimize_returns_untested_base :
    ∃ p : ConfigFile → Bool, p stringConfig = true ∧ ∃ config,
      minimize ⟨fun _ => none⟩ ⟨[], [], by decide⟩ stringConfig
        (fun cfg => (.ok (p cfg) : Except Empty Bool)) 0 (fun _ _ => false) = some (.ok config) ∧
      p config = false :=
  ⟨fun cfg => decide (cfg.value "CMDLINE" = "\"x\""), by decide, _, rfl, by decide⟩

end KConfuzz.Kconfig
