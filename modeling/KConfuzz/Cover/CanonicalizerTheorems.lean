import KConfuzz.Cover.Canonicalizer
import Mathlib.Algebra.Ring.Nat
import Mathlib.Data.List.Pairwise

/-!
# Conversions of program counters

In a list of modules with disjoint address ranges, the binary search finds the module a program
counter is in, and the conversion map has the entry of that module under its address. A program
counter of a module that is the same on both sides is shifted there and back; one of a module that
is missing or different on the other side is discarded, as far as the entry covers it: the entry
of `decanonicalize` ends where the module of the instance would end.
-/

namespace KConfuzz.Cover

open Lib.MapLog List CanonicalizerInstance Canonicalizer KernelModule

/-! ## Module lists -/

namespace KernelModule

/-- The first address behind the module. -/
def endNat (m : KernelModule) : ℕ := m.addr.toNat + m.size.toNat

def Contains (m : KernelModule) (pc : UInt64) : Prop := m.addr ≤ pc ∧ pc.toNat < m.endNat

def Apart (m m' : KernelModule) : Prop :=
  m.endNat ≤ m'.addr.toNat ∨ m'.endNat ≤ m.addr.toNat

instance (m m' : KernelModule) : Decidable (m.Apart m') := by
  unfold Apart
  infer_instance

instance : Std.Symm Apart := ⟨fun _ _ h => Or.symm h⟩

end KernelModule

/-- The modules of a machine: their names are unique, and their address ranges are not empty, end
within the address space and are pairwise disjoint. -/
structure ModuleList where
  modules : List KernelModule
  names : (modules.map KernelModule.name).Nodup
  ranges : ∀ m ∈ modules, 0 < m.size.toNat ∧ m.endNat < 2 ^ 64
  apart : modules.Pairwise KernelModule.Apart

namespace ModuleList

variable {l : ModuleList} {m m' : KernelModule}

/-- Of two modules, the one that starts at or before an address inside the other starts before
it. -/
lemma addr_le_of_contains (hm : m ∈ l.modules) (hm' : m' ∈ l.modules) {pc : UInt64}
    (hpc : m.Contains pc) (h : m'.addr ≤ pc) : m'.addr ≤ m.addr := by
  by_cases heq : m = m'
  · rw [heq]
    exact UInt64.le_refl _
  · have hapart := l.apart.forall hm hm' heq
    have hle := UInt64.le_iff_toNat_le.mp h
    have hend := hpc.2
    rw [UInt64.le_iff_toNat_le]
    rcases hapart with hbefore | hafter
    · omega
    · unfold endNat at hafter
      omega

lemma eq_of_addr (hm : m ∈ l.modules) (hm' : m' ∈ l.modules) (h : m.addr = m'.addr) : m = m' := by
  by_contra hne
  have hapart := l.apart.forall hm hm' hne
  have hpos := (l.ranges m hm).1
  have hpos' := (l.ranges m' hm').1
  unfold KernelModule.Apart endNat at hapart
  rw [h] at hapart
  omega

lemma contains_iff (hm : m ∈ l.modules) (pc : UInt64) :
    m.Contains pc ↔ m.addr ≤ pc ∧ pc < m.size + m.addr := by
  have hend := (l.ranges m hm).2
  have hsum : (m.size + m.addr).toNat = m.endNat := by
    rw [UInt64.toNat_add, Nat.mod_eq_of_lt (by unfold endNat at hend; omega), Nat.add_comm]
    rfl
  rw [KernelModule.Contains, UInt64.lt_iff_toNat_lt, hsum]

end ModuleList

/-! ## Finding the module of a program counter -/

/-- The binary search finds the last key that is not above the program counter. -/
lemma findModule_eq_some {keys : List UInt64} (hsorted : keys.Pairwise (· < ·)) {pc key : UInt64}
    (hmem : key ∈ keys) (hle : key ≤ pc) (hmax : ∀ k ∈ keys, k ≤ pc → k ≤ key) :
    ∃ idx, findModule pc keys = some idx ∧ keys[idx]? = some key := by
  obtain ⟨idx, hidx, rfl⟩ := mem_iff_getElem.mp hmem
  have hlt := pairwise_iff_getElem.mp hsorted
  -- the key is the last one that is not above
  have hcount : Lib.BinarySearch.find (fun i => decide (keys[i]?.any fun key => key ≤ pc))
      keys.length = idx + 1 := by
    apply Lib.BinarySearch.find_eq
    · intro i hi
      have hbefore : keys[i] ≤ keys[idx] := by
        rcases Nat.lt_or_eq_of_le (Nat.le_of_lt_succ hi) with hi | rfl
        · exact UInt64.le_of_lt (hlt i idx _ hidx hi)
        · exact UInt64.le_refl _
      simpa [show i < keys.length by omega] using UInt64.le_trans hbefore hle
    · intro i hi hlen
      have habove : ¬ keys[i] ≤ pc := fun h =>
        UInt64.not_lt.mpr (hmax _ (getElem_mem hlen) h) (hlt idx i hidx hlen hi)
      simpa [hlen] using habove
    · exact hidx
  exact ⟨idx, by rw [findModule, hcount], getElem?_eq_getElem hidx⟩

lemma mem_setModuleKeys {modules : List KernelModule} {key : UInt64} :
    key ∈ setModuleKeys modules ↔ ∃ m ∈ modules, m.addr = key := by
  rw [setModuleKeys, (perm_insertionSort _ _).mem_iff, mem_map]

lemma ModuleList.pairwise_setModuleKeys (l : ModuleList) :
    (setModuleKeys l.modules).Pairwise (· < ·) := by
  have hnodup : (l.modules.map addr).Nodup :=
    Nodup.map_on (fun m hm m' hm' h => eq_of_addr hm hm' h) (Nodup.of_map _ l.names)
  have hkeys := (perm_insertionSort (· ≤ ·) _).nodup_iff.mpr hnodup
  exact (pairwise_insertionSort (· ≤ ·) _).imp₂ (fun _ _ => UInt64.lt_of_le_of_ne) hkeys

lemma ModuleList.findModule {l : ModuleList} {m : KernelModule} (hm : m ∈ l.modules)
    {pc : UInt64} (hpc : m.Contains pc) :
    ∃ idx, Cover.findModule pc (setModuleKeys l.modules) = some idx ∧
      (setModuleKeys l.modules)[idx]? = some m.addr := by
  apply findModule_eq_some l.pairwise_setModuleKeys (mem_setModuleKeys.2 ⟨m, hm, rfl⟩) hpc.1
  intro key hkey hle
  obtain ⟨m', hm', rfl⟩ := mem_setModuleKeys.1 hkey
  exact addr_le_of_contains hm hm' hpc hle

/-! ## The entries of the conversion maps -/

section Entries

variable {canonical inst : ModuleList} {m c : KernelModule}

section

variable (hne : canonical.modules ≠ [])

include hne

lemma newCanonicalizer_eq :
    newCanonicalizer canonical.modules true =
      ⟨applyWrites name some (fun _ => none) canonical.modules,
        some (setModuleKeys canonical.modules)⟩ := by
  rw [newCanonicalizer, if_neg]
  rintro (hlen | hflag)
  · exact hne (length_eq_zero_iff.mp hlen)
  · exact hflag rfl

lemma modules_name (hc : c ∈ canonical.modules) :
    (newCanonicalizer canonical.modules true).modules c.name = some c := by
  rw [newCanonicalizer_eq hne]
  exact applyWrites_of_nodup canonical.names hc

lemma modules_eq_none {name : String} (h : ∀ c ∈ canonical.modules, c.name ≠ name) :
    (newCanonicalizer canonical.modules true).modules name = none := by
  rw [newCanonicalizer_eq hne]
  apply applyWrites_of_notMem
  intro hmem
  obtain ⟨c, hc, rfl⟩ := mem_map.mp hmem
  exact h c hc rfl

lemma canonicalAddr_eq (hc : c ∈ canonical.modules) (hname : m.name = c.name) :
    (newCanonicalizer canonical.modules true).canonicalAddr m = c.addr := by
  rw [canonicalAddr, hname, modules_name hne hc]

lemma discards_eq (hc : c ∈ canonical.modules) (hname : m.name = c.name) :
    (newCanonicalizer canonical.modules true).discards m = (c.size != m.size) := by
  rw [discards, hname, modules_name hne hc]

lemma discards_of_forall (h : ∀ c ∈ canonical.modules, c.name = m.name → c.size ≠ m.size) :
    (newCanonicalizer canonical.modules true).discards m = true := by
  by_cases hfound : ∃ c ∈ canonical.modules, c.name = m.name
  · obtain ⟨c, hc, hname⟩ := hfound
    rw [discards_eq hne hc hname.symm]
    simpa using h c hc hname
  · have hnone := modules_eq_none hne (fun c hc hname => hfound ⟨c, hc, hname⟩)
    rw [discards, hnone]

end

/-- The instance a list of modules gives for the canonical modules. -/
def instanceOf (canonical inst : ModuleList) : CanonicalizerInstance :=
  (newCanonicalizer canonical.modules true).newInstance inst.modules

/-- The conversion of the instance's program counters. -/
def toCanonical (canonical inst : ModuleList) : Convert :=
  ⟨conversionMap (inst.modules.map (newCanonicalizer canonical.modules true).instToCanonical),
    setModuleKeys inst.modules⟩

/-- The conversion of canonical program counters. -/
def toInst (canonical inst : ModuleList) : Convert :=
  ⟨conversionMap (inst.modules.map (newCanonicalizer canonical.modules true).canonicalToInst),
    setModuleKeys canonical.modules⟩

lemma instanceOf_eq (hne : canonical.modules ≠ []) :
    instanceOf canonical inst = ⟨some (toCanonical canonical inst), some (toInst canonical inst)⟩ := by
  have hkeys : (newCanonicalizer canonical.modules true).moduleKeys =
      some (setModuleKeys canonical.modules) := by
    rw [newCanonicalizer_eq hne]
  rw [instanceOf, newInstance, hkeys]
  rfl

lemma toCanonical_conversionHash (hm : m ∈ inst.modules) :
    (toCanonical canonical inst).conversionHash m.addr =
      some ((newCanonicalizer canonical.modules true).entry m m.addr
        ((newCanonicalizer canonical.modules true).canonicalAddr m)) := by
  apply applyWrites_of_forall
  · rw [map_map]
    exact mem_map.mpr ⟨m, hm, rfl⟩
  · refine forall_mem_map.mpr fun m' hm' hkey => ?_
    rw [ModuleList.eq_of_addr hm' hm hkey]
    rfl

section

variable (hne : canonical.modules ≠ []) (hc : c ∈ canonical.modules) (hzero : c.addr ≠ 0)

include hne hc hzero

/-- Only the module with the name of a canonical module writes under its address; those that are
missing from the canonical list write under the address zero. -/
lemma name_eq_of_canonicalAddr
    (h : (newCanonicalizer canonical.modules true).canonicalAddr m = c.addr) :
    m.name = c.name := by
  by_cases hfound : ∃ c' ∈ canonical.modules, m.name = c'.name
  · obtain ⟨c', hc', hname⟩ := hfound
    rw [canonicalAddr_eq hne hc' hname] at h
    rw [hname, ModuleList.eq_of_addr hc' hc h]
  · have hnone := modules_eq_none hne (fun c hc hname => hfound ⟨c, hc, hname.symm⟩)
    rw [canonicalAddr, hnone] at h
    exact absurd h.symm hzero

lemma toInst_conversionHash (hm : m ∈ inst.modules) (hname : m.name = c.name) :
    (toInst canonical inst).conversionHash c.addr =
      some ((newCanonicalizer canonical.modules true).entry m c.addr m.addr) := by
  have haddr := canonicalAddr_eq hne hc hname
  apply applyWrites_of_forall
  · rw [map_map]
    exact mem_map.mpr ⟨m, hm, haddr⟩
  · refine forall_mem_map.mpr fun m' hm' hkey => ?_
    have hname' := name_eq_of_canonicalAddr hne hc hzero hkey
    rw [inj_on_of_nodup_map inst.names hm' hm (hname'.trans hname.symm), canonicalToInst, haddr]

lemma toInst_conversionHash_eq_none (hmissing : ∀ m ∈ inst.modules, m.name ≠ c.name) :
    (toInst canonical inst).conversionHash c.addr = none := by
  apply applyWrites_of_notMem
  intro hmem
  rw [map_map] at hmem
  obtain ⟨m, hm, hkey⟩ := mem_map.mp hmem
  exact hmissing m hm (name_eq_of_canonicalAddr hne hc hzero hkey)

end

end Entries

/-! ## Converting one program counter -/

section Convert

/-- What an entry does with a program counter it covers. -/
def CanonicalizerModule.apply (module : CanonicalizerModule) (pc : UInt64) : Option UInt64 :=
  if module.discard then none else if module.name ≠ "" then some (pc + module.offset) else some pc

lemma convertPC_eq {convert : Convert} {pc key : UInt64}
    (hfind : ∃ idx, findModule pc convert.moduleKeys = some idx ∧
      convert.moduleKeys[idx]? = some key) :
    convert.convertPC pc = (convert.conversionHash key).bind fun module =>
      if pc < module.endAddr then module.apply pc else some pc := by
  obtain ⟨idx, hidx, hkey⟩ := hfind
  rw [Convert.convertPC, hidx]
  simp only [hkey, Option.bind_some]
  cases convert.conversionHash key <;> rfl

/-- Shifting a program counter from a module to another one of the same size. -/
lemma contains_shift {l' : ModuleList} {m m' : KernelModule} (hm' : m' ∈ l'.modules)
    (hsize : m'.size = m.size) {pc : UInt64} (hpc : m.Contains pc) :
    m'.Contains (pc + (m'.addr - m.addr)) := by
  have hstart := UInt64.le_iff_toNat_le.mp hpc.1
  have hend := hpc.2
  have hend' := (l'.ranges m' hm').2
  unfold endNat at hend hend'
  have hshift : pc + (m'.addr - m.addr) = m'.addr + (pc - m.addr) := by
    grind
  have hoff : (pc - m.addr).toNat = pc.toNat - m.addr.toNat := UInt64.toNat_sub_of_le _ _ hpc.1
  have hsum : (m'.addr + (pc - m.addr)).toNat = m'.addr.toNat + (pc.toNat - m.addr.toNat) := by
    rw [UInt64.toNat_add, hoff, Nat.mod_eq_of_lt (by rw [hsize] at hend'; omega)]
  rw [hshift]
  refine ⟨?_, ?_⟩
  · rw [UInt64.le_iff_toNat_le, hsum]
    omega
  · unfold endNat
    rw [hsum, hsize]
    omega

/-- The module is on both sides, with the same name and size. A module without a name, the kernel
itself, is not shifted and has to be at the same address. -/
def SameModule (m c : KernelModule) : Prop :=
  m.name = c.name ∧ m.size = c.size ∧ (m.name ≠ "" ∨ m.addr = c.addr)

variable {canonical inst : ModuleList} {m c : KernelModule} {pc : UInt64}

variable (hne : canonical.modules ≠ [])

include hne

/-- An entry of a module that is the same on both sides shifts by the difference. -/
lemma apply_entry (hc : c ∈ canonical.modules) (hsame : SameModule m c) {src dst : UInt64}
    (haddr : m.addr = c.addr → dst = src) (pc : UInt64) :
    ((newCanonicalizer canonical.modules true).entry m src dst).apply pc =
      some (pc + (dst - src)) := by
  obtain ⟨hname, hsize, hnamed⟩ := hsame
  have hdiscard : (newCanonicalizer canonical.modules true).discards m = false := by
    rw [discards_eq hne hc hname, hsize]
    exact bne_self_eq_false _
  simp only [CanonicalizerModule.apply, entry, hdiscard, Bool.false_eq_true, if_false]
  rcases hnamed with hnamed | hequal
  · rw [if_pos hnamed]
  · have hzero : pc + (dst - src) = pc := by
      grind
    rw [hzero]
    split <;> rfl

omit hne in
lemma toCanonical_convertPC (canonical : ModuleList) (hm : m ∈ inst.modules) (hpc : m.Contains pc) :
    (toCanonical canonical inst).convertPC pc =
      ((newCanonicalizer canonical.modules true).entry m m.addr
        ((newCanonicalizer canonical.modules true).canonicalAddr m)).apply pc := by
  rw [convertPC_eq (ModuleList.findModule hm hpc), toCanonical_conversionHash hm]
  exact if_pos ((ModuleList.contains_iff hm pc).mp hpc).2

lemma toInst_convertPC (hc : c ∈ canonical.modules) (hzero : c.addr ≠ 0) (hm : m ∈ inst.modules)
    (hname : m.name = c.name) (hpc : c.Contains pc) (hend : pc < m.size + c.addr) :
    (toInst canonical inst).convertPC pc =
      ((newCanonicalizer canonical.modules true).entry m c.addr m.addr).apply pc := by
  rw [convertPC_eq (ModuleList.findModule hc hpc), toInst_conversionHash hne hc hzero hm hname]
  exact if_pos hend

lemma toCanonical_same (hm : m ∈ inst.modules) (hc : c ∈ canonical.modules)
    (hsame : SameModule m c) (hpc : m.Contains pc) :
    (toCanonical canonical inst).convertPC pc = some (pc + (c.addr - m.addr)) := by
  rw [toCanonical_convertPC canonical hm hpc, canonicalAddr_eq hne hc hsame.1,
    apply_entry hne hc hsame Eq.symm]

lemma toInst_same (hm : m ∈ inst.modules) (hc : c ∈ canonical.modules) (hzero : c.addr ≠ 0)
    (hsame : SameModule m c) (hpc : c.Contains pc) :
    (toInst canonical inst).convertPC pc = some (pc + (m.addr - c.addr)) := by
  have hend : pc < m.size + c.addr := by
    rw [hsame.2.1]
    exact ((ModuleList.contains_iff hc pc).mp hpc).2
  rw [toInst_convertPC hne hc hzero hm hsame.1 hpc hend, apply_entry hne hc hsame id]

/-- A program counter of an instance module that is missing or of another size in the canonical
list is dropped. -/
lemma toCanonical_dropped (hm : m ∈ inst.modules) (hpc : m.Contains pc)
    (hother : ∀ c ∈ canonical.modules, c.name = m.name → c.size ≠ m.size) :
    (toCanonical canonical inst).convertPC pc = none := by
  rw [toCanonical_convertPC canonical hm hpc, CanonicalizerModule.apply, entry, discards_of_forall hne hother]
  rfl

/-- A program counter of a canonical module that is missing from the instance is dropped, and so
is one of a module of another size as far as the size in the instance goes. -/
lemma toInst_dropped (hc : c ∈ canonical.modules) (hzero : c.addr ≠ 0) (hpc : c.Contains pc)
    (hother : ∀ m ∈ inst.modules, m.name = c.name → m.size ≠ c.size ∧ pc < m.size + c.addr) :
    (toInst canonical inst).convertPC pc = none := by
  by_cases hfound : ∃ m ∈ inst.modules, m.name = c.name
  · obtain ⟨m, hm, hname⟩ := hfound
    obtain ⟨hsize, hend⟩ := hother m hm hname
    have hdiscard : (newCanonicalizer canonical.modules true).discards m = true := by
      rw [discards_eq hne hc hname]
      simpa using hsize.symm
    rw [toInst_convertPC hne hc hzero hm hname hpc hend, CanonicalizerModule.apply, entry, hdiscard]
    rfl
  · rw [convertPC_eq (ModuleList.findModule hc hpc), toInst_conversionHash_eq_none hne hc hzero
      fun m hm hname => hfound ⟨m, hm, hname⟩]
    rfl

end Convert

/-! ## Converting coverage -/

section Coverage

variable {canonical inst : ModuleList} {pcs : List UInt64}

lemma convertPCs_convertPCs {there back : Convert}
    (h : ∀ pc ∈ pcs, ∃ pc', there.convertPC pc = some pc' ∧ back.convertPC pc' = some pc) :
    convertPCs (some back) (convertPCs (some there) pcs) = pcs := by
  rw [convertPCs, convertPCs, filterMap_filterMap]
  refine (filterMap_congr fun pc hpc => ?_).trans filterMap_some
  obtain ⟨pc', hthere, hback⟩ := h pc hpc
  rw [hthere, Option.bind_some, hback]

/-- The conversions of coverage: there and back for what both sides have, and nothing of what they
do not share. -/
theorem conversions_spec (hne : canonical.modules ≠ [])
    (hzero : ∀ c ∈ canonical.modules, c.addr ≠ 0) :
    (∀ pcs : List UInt64, (∀ pc ∈ pcs, ∃ m ∈ inst.modules, ∃ c ∈ canonical.modules,
        SameModule m c ∧ m.Contains pc) →
      (instanceOf canonical inst).decanonicalizePCs
        ((instanceOf canonical inst).canonicalizePCs pcs) = pcs) ∧
    (∀ pcs : List UInt64, (∀ pc ∈ pcs, ∃ m ∈ inst.modules, ∃ c ∈ canonical.modules,
        SameModule m c ∧ c.Contains pc) →
      (instanceOf canonical inst).canonicalizePCs
        ((instanceOf canonical inst).decanonicalizePCs pcs) = pcs) ∧
    (∀ pcs : List UInt64, (∀ pc ∈ pcs, ∃ m ∈ inst.modules, m.Contains pc ∧
        ∀ c ∈ canonical.modules, c.name = m.name → c.size ≠ m.size) →
      (instanceOf canonical inst).canonicalizePCs pcs = []) ∧
    (∀ pcs : List UInt64, (∀ pc ∈ pcs, ∃ c ∈ canonical.modules, c.Contains pc ∧
        ∀ m ∈ inst.modules, m.name = c.name → m.size ≠ c.size ∧ pc < m.size + c.addr) →
      (instanceOf canonical inst).decanonicalizePCs pcs = []) := by
  simp only [decanonicalizePCs, canonicalizePCs, instanceOf_eq hne]
  refine ⟨fun pcs hpcs => convertPCs_convertPCs fun pc hmem => ?_,
    fun pcs hpcs => convertPCs_convertPCs fun pc hmem => ?_, fun pcs hpcs => ?_, fun pcs hpcs => ?_⟩
  · obtain ⟨m, hm, c, hc, hsame, hpc⟩ := hpcs pc hmem
    refine ⟨_, toCanonical_same hne hm hc hsame hpc, ?_⟩
    rw [toInst_same hne hm hc (hzero c hc) hsame (contains_shift hc hsame.2.1.symm hpc)]
    exact congrArg some (by grind)
  · obtain ⟨m, hm, c, hc, hsame, hpc⟩ := hpcs pc hmem
    refine ⟨_, toInst_same hne hm hc (hzero c hc) hsame hpc, ?_⟩
    rw [toCanonical_same hne hm hc hsame (contains_shift hm hsame.2.1 hpc)]
    exact congrArg some (by grind)
  · rw [convertPCs, filterMap_eq_nil_iff]
    intro pc hmem
    obtain ⟨m, hm, hpc, hother⟩ := hpcs pc hmem
    exact toCanonical_dropped hne hm hpc hother
  · rw [convertPCs, filterMap_eq_nil_iff]
    intro pc hmem
    obtain ⟨c, hc, hpc, hother⟩ := hpcs pc hmem
    exact toInst_dropped hne hc (hzero c hc) hpc hother

end Coverage

/-! ### Two machines -/

/-- The first machine. -/
def firstModules : ModuleList where
  modules := [⟨"", 0x1000, 0x100⟩, ⟨"a", 0x2000, 0x100⟩, ⟨"b", 0x3000, 0x200⟩]
  names := by decide
  ranges := by decide
  apart := by decide

/-- Another machine: the kernel and `a` are somewhere else, `b` is smaller and `c` is new. -/
def secondModules : ModuleList where
  modules := [⟨"", 0x2000, 0x100⟩, ⟨"a", 0x4000, 0x100⟩, ⟨"b", 0x5000, 0x100⟩,
    ⟨"c", 0x6000, 0x100⟩]
  names := by decide
  ranges := by decide
  apart := by decide

def noModules : ModuleList := ⟨[], by decide, by decide, by decide⟩

/-- A module at another address, a new one and one of another size. -/
theorem conversions_spec_machines :
    (instanceOf firstModules secondModules).decanonicalizePCs
      ((instanceOf firstModules secondModules).canonicalizePCs [0x4010]) = [0x4010] ∧
    (instanceOf firstModules secondModules).canonicalizePCs
      ((instanceOf firstModules secondModules).decanonicalizePCs [0x2010]) = [0x2010] ∧
    (instanceOf firstModules secondModules).canonicalizePCs [0x6010] = [] ∧
    (instanceOf firstModules secondModules).decanonicalizePCs [0x3010] = [] := by
  have hne : firstModules.modules ≠ [] := by decide
  have hzero : ∀ c ∈ firstModules.modules, c.addr ≠ 0 := by decide
  obtain ⟨hthere, hback, hcanonicalize, hdecanonicalize⟩ :=
    @conversions_spec firstModules secondModules hne hzero
  refine ⟨hthere _ ?_, hback _ ?_, hcanonicalize _ ?_, hdecanonicalize _ ?_⟩
  all_goals
    intro pc hpc
    rw [mem_singleton.mp hpc]
  · exact ⟨⟨"a", 0x4000, 0x100⟩, by decide, ⟨"a", 0x2000, 0x100⟩, by decide,
      ⟨rfl, rfl, .inl (by decide)⟩, by decide, by decide⟩
  · exact ⟨⟨"a", 0x4000, 0x100⟩, by decide, ⟨"a", 0x2000, 0x100⟩, by decide,
      ⟨rfl, rfl, .inl (by decide)⟩, by decide, by decide⟩
  · exact ⟨⟨"c", 0x6000, 0x100⟩, by decide, ⟨by decide, by decide⟩, by decide⟩
  · exact ⟨⟨"b", 0x3000, 0x200⟩, by decide, ⟨by decide, by decide⟩, by decide⟩

/-- By design, nothing is dropped without canonical modules, and a program counter of the kernel
itself, which is not shifted, does not come back when a canonical module is in its place. -/
theorem conversions_exceptions :
    (instanceOf noModules secondModules).canonicalizePCs [0x6010] = [0x6010] ∧
    (instanceOf firstModules secondModules).decanonicalizePCs
      ((instanceOf firstModules secondModules).canonicalizePCs [0x2010]) = [0x4010] := by
  decide

-- a slip of the source: the end of a canonical module that is smaller in the instance passes
example : (instanceOf firstModules secondModules).decanonicalizePCs [0x3150] = [0x3150] := by
  decide

end KConfuzz.Cover
