import KConfuzz.Corpus.CorpusTheorems

/-!
# The lists of the focus areas

`Save` puts a program into the list of every area that the new coverage meets, but notes at most
one area in the item, and `Minimize` rebuilds the lists from what is noted. The lists are exact as
long as an input meets at most one area, and none when its program has met one before.
-/

namespace KConfuzz.Corpus

open Lib.FiniteMap List

variable {P : Type} {env : Env P} {corpus : Corpus P} {areas : List (List UInt64)} {inp : NewInput P}
  {area : FocusAreaState P} {cover : List UInt64}

/-- The area at the position is met. -/
def Hits (areas : List (List UInt64)) (cover : List UInt64) (i : ℕ) : Prop :=
  ∃ coverPCs, areas[i]? = some coverPCs ∧ Meets cover coverPCs

/-- Every focus area lists the programs that meet it, each once. -/
structure AreasExact (areas : List (List UInt64)) (corpus : Corpus P) : Prop where
  coverPCs : corpus.focusAreas.map FocusAreaState.coverPCs = areas
  listed : ∀ area ∈ corpus.focusAreas, (area.list.items.map Item.sig).Nodup ∧
    ∀ sig, sig ∈ area.list.items.map Item.sig ↔
      ∃ item ∈ corpus.progsMap.lookup sig, Meets item.cover area.coverPCs

/-- The input meets at most one area, and none if the program has met one. -/
structure HitsOnce (env : Env P) (areas : List (List UInt64)) (corpus : Corpus P)
    (inp : NewInput P) : Prop where
  one : ∀ i j, Hits areas inp.cover i → Hits areas inp.cover j → i = j
  first : ∀ i j, Hits areas inp.cover i →
    ∀ old ∈ corpus.progsMap.lookup (env.sig inp.prog), ¬ Hits areas old.cover j

structure FocusInv (areas : List (List UInt64)) (corpus : Corpus P) : Prop
    extends AreasExact areas corpus where
  noted : ∀ sig, ∀ item ∈ corpus.progsMap.lookup sig, ∀ i, i ∈ item.areas ↔ Hits areas item.cover i

lemma matches_iff : area.matches cover = true ↔ Meets cover area.coverPCs := by
  simp [FocusAreaState.matches, Meets]

lemma AreasExact.hits (h : AreasExact areas corpus) {i : ℕ}
    (harea : corpus.focusAreas[i]? = some area) (cover : List UInt64) :
    Hits areas cover i ↔ Meets cover area.coverPCs := by
  simp [Hits, ← h.coverPCs, harea]

/-- As long as at most one area is met, and none if one was noted, all that are met are noted. -/
lemma AreasExact.mem_notedAreas (h : AreasExact areas corpus) {noted : List ℕ}
    (hone : ∀ i j, Hits areas cover i → Hits areas cover j → i = j)
    (hfirst : ∀ i, Hits areas cover i → noted = []) (i : ℕ) :
    i ∈ notedAreas corpus.focusAreas noted cover ↔ Hits areas cover i ∨ i ∈ noted := by
  unfold notedAreas
  split_ifs with hnil
  · rw [hnil, or_iff_left not_mem_nil]
    cases hfind : corpus.focusAreas.zipIdx.find? fun area => area.1.matches cover with
    | none =>
      refine iff_of_false not_mem_nil ?_
      rintro ⟨coverPCs, hi, hmeets⟩
      rw [← h.coverPCs, getElem?_map, Option.map_eq_some_iff] at hi
      obtain ⟨area, harea, rfl⟩ := hi
      refine find?_eq_none.mp hfind (area, i) (mem_zipIdx_iff_getElem?.mpr harea) ?_
      exact matches_iff.2 hmeets
    | some found =>
      have hmeets := find?_some hfind
      have harea := mem_zipIdx_iff_getElem?.mp (mem_of_find?_eq_some hfind)
      have hfound : Hits areas cover found.2 := (h.hits harea cover).2 (matches_iff.1 hmeets)
      simp only [Option.map_some, Option.toList_some, mem_singleton]
      exact ⟨fun heq => heq ▸ hfound, fun hi => hone i _ hi hfound⟩
  · rw [or_iff_right fun hi => hnil (hfirst i hi)]

/-- Saving keeps the areas exact if the input meets one area for the first time. -/
lemma FocusInv.save (h : FocusInv areas corpus) (hinp : HitsOnce env areas corpus inp) :
    FocusInv areas (corpus.save env inp) := by
  obtain ⟨item, -, hsig, hmap, -, -, -, -, hcover, hareas, hfocus⟩ := save_spec env corpus inp
  refine { coverPCs := ?_, listed := ?_, noted := ?_ }
  · rw [hfocus, applyFocusAreas, map_map, ← h.coverPCs]
    apply map_congr_left
    intro area _
    dsimp only [Function.comp]
    split <;> rfl
  · rw [hfocus]
    refine forall_mem_map.mpr fun area harea => ?_
    obtain ⟨hnodup, hmem⟩ := h.listed area harea
    by_cases hmeets : Meets inp.cover area.coverPCs
    · rw [if_pos (matches_iff.2 hmeets)]
      show ((area.list.items ++ [item]).map Item.sig).Nodup ∧
        ∀ sig, sig ∈ (area.list.items ++ [item]).map Item.sig ↔ _
      have hnot : item.sig ∉ area.list.items.map Item.sig := by
        rw [hmem, hsig]
        rintro ⟨old, hold, hold'⟩
        obtain ⟨i, hi⟩ := getElem?_of_mem harea
        exact hinp.first i i ((h.hits hi _).2 hmeets) old hold ((h.hits hi _).2 hold')
      rw [map_append]
      refine ⟨hnodup.append (nodup_singleton _) (disjoint_singleton.mpr hnot), fun sig => ?_⟩
      rw [mem_append, hmem, hmap, lookup_insert_eq, map_singleton, mem_singleton, hsig]
      by_cases heq : sig = env.sig inp.prog <;> simp [heq, hcover, hmeets]
    · rw [if_neg fun hm => hmeets (matches_iff.1 hm)]
      refine ⟨hnodup, fun sig => ?_⟩
      rw [hmem, hmap, lookup_insert_eq]
      by_cases heq : sig = env.sig inp.prog
      · subst heq
        simp [hcover, hmeets]
      · simp [heq]
  · intro sig other hother i
    rw [hmap, lookup_insert_eq] at hother
    split_ifs at hother with heq
    · cases hother
      have hnoted : ∀ j, j ∈ (corpus.progsMap.lookup (env.sig inp.prog)).elim [] Item.areas ↔
          ∃ old ∈ corpus.progsMap.lookup (env.sig inp.prog), Hits areas old.cover j := by
        cases hold : corpus.progsMap.lookup (env.sig inp.prog) with
        | none => simp
        | some old => simp [h.noted _ old hold]
      rw [hareas, h.mem_notedAreas hinp.one, hnoted]
      · unfold Hits
        cases areas[i]? <;> simp [hcover]
      · intro j hj
        refine eq_nil_iff_forall_not_mem.mpr fun k hk => ?_
        obtain ⟨old, hold, hhits⟩ := (hnoted k).mp hk
        exact hinp.first j k hj old hold hhits
    · exact h.noted sig other hother i

/-- Minimizing rebuilds the areas from what is noted in the items. -/
lemma FocusInv.minimize (h : FocusInv areas corpus) {ops : List (Op P)} (hinv : Inv ops corpus)
    (inputs : Shuffle (Item P)) (kept : Shuffle ℕ) :
    FocusInv areas (corpus.minimize env inputs kept) := by
  obtain ⟨items, hsub, -, hperm, -, -, -, hkeyed, hfocus⟩ := minimize_spec env hinv inputs kept
  have hinv' : Inv _ (corpus.minimize env inputs kept) := hinv.minimize inputs kept
  have hnodup := hinv'.nodup_sig
  rw [(hperm.map Item.sig).nodup_iff] at hnodup
  have hnoted : ∀ item ∈ items, ∀ i, i ∈ item.areas ↔ Hits areas item.cover i := by
    intro item hitem
    obtain ⟨sig, hsig⟩ := mem_items.1 (hsub item hitem)
    exact h.noted sig item hsig
  have hmem : ∀ sig item, item ∈ (corpus.minimize env inputs kept).progsMap.lookup sig ↔
      item ∈ items ∧ item.sig = sig := by
    intro sig item
    rw [← hperm.mem_iff, mem_items]
    constructor
    · intro hitem
      exact ⟨⟨sig, hitem⟩, hkeyed sig item hitem⟩
    · rintro ⟨⟨sig', hitem⟩, rfl⟩
      rwa [hkeyed sig' item hitem]
  refine { coverPCs := ?_, listed := ?_, noted := ?_ }
  · rw [← h.coverPCs]
    apply ext_getElem?
    intro i
    have hfst := congrArg (Option.map Prod.fst) (hfocus i)
    rw [Option.map_map, Option.map_map] at hfst
    rw [getElem?_map, getElem?_map]
    exact hfst
  · intro area' harea'
    obtain ⟨i, hi⟩ := getElem?_of_mem harea'
    have hat := hfocus i
    rw [hi, eq_comm, Option.map_some, Option.map_eq_some_iff] at hat
    obtain ⟨area, harea, heq⟩ := hat
    obtain ⟨hpcs, hlist⟩ := Prod.mk.inj heq
    rw [← hlist, ← hpcs]
    refine ⟨(filter_sublist.map _).nodup hnodup, fun sig => ?_⟩
    simp only [mem_map, mem_filter, decide_eq_true_eq, hmem, ← h.hits harea]
    constructor
    · rintro ⟨item, ⟨hitem, hi⟩, rfl⟩
      exact ⟨item, ⟨hitem, rfl⟩, (hnoted item hitem i).mp hi⟩
    · rintro ⟨item, ⟨hitem, rfl⟩, hhits⟩
      exact ⟨item, ⟨hitem, (hnoted item hitem i).mpr hhits⟩, rfl⟩
  · intro sig item hitem
    exact hnoted item ((hmem sig item).mp hitem).1

/-- In a run in which no input meets two areas, nor one when its program has met one already, the
lists of the areas are exact. -/
theorem areasExact_run (env : Env P) (areas : List (List UInt64)) (ops : List (Op P))
    (h : ∀ done inp, done ++ [.save inp] <+: ops → HitsOnce env areas (run env areas done) inp) :
    AreasExact areas (run env areas ops) := by
  suffices hinv : FocusInv areas (run env areas ops) from hinv.toAreasExact
  induction ops using reverseRecOn with
  | nil =>
    refine { coverPCs := ?_, listed := ?_, noted := fun sig item hitem => by cases hitem }
    · simp [run, newFocusedCorpus, map_map, Function.comp_def]
    · refine forall_mem_map.mpr fun coverPCs _ => ?_
      refine ⟨nodup_nil, fun sig => iff_of_false not_mem_nil ?_⟩
      rintro ⟨item, hitem, _⟩
      cases hitem
  | append_singleton ops op ih =>
    have hbefore := ih fun done inp hdone => h done inp (hdone.trans (prefix_append _ _))
    rw [run_append]
    cases op with
    | save inp => exact hbefore.save (h ops inp prefix_rfl)
    | minimize inputs kept => exact hbefore.minimize (inv_run env areas ops) inputs kept

/-- The program of `unitInput` with coverage. -/
def coveredInput : NewInput Unit := { unitInput with cover := [1] }

/-- A program is saved again with coverage of one of two areas. -/
theorem areasExact_saved_again :
    AreasExact [[1], [2]]
      (run unitEnv [[1], [2]] [.save unitInput, .save coveredInput, .minimize .id .id]) := by
  apply areasExact_run
  intro done inp hdone
  have hempty : ∀ i, ¬ Hits [[1], [2]] [] i := by simp [Hits, Meets]
  have hcovered : ∀ i, Hits [[1], [2]] [1] i → i = 0 := by
    rintro (_ | _ | i) <;> simp [Hits, Meets]
  rcases done with _ | ⟨a, _ | ⟨b, _ | ⟨c, done⟩⟩⟩ <;> simp at hdone
  · subst hdone
    exact ⟨fun i _ hi => absurd hi (hempty i), fun i _ hi => absurd hi (hempty i)⟩
  · obtain ⟨rfl, rfl⟩ := hdone
    refine ⟨fun i j hi hj => (hcovered i hi).trans (hcovered j hj).symm, fun _ j _ old hold => ?_⟩
    cases hold
    exact hempty j

/-- A program that is saved twice is listed twice, and of two areas that it meets the second lists
it no more after `Minimize`. -/
theorem areas_not_exact :
    ¬ AreasExact [[1]] (run unitEnv [[1]] [.save coveredInput, .save coveredInput]) ∧
      ¬ AreasExact [[1], [1, 2]]
        (run unitEnv [[1], [1, 2]] [.save coveredInput, .minimize .id .id]) := by
  constructor
  · intro h
    exact absurd (forall_mem_cons.mp h.listed).1.1 (by decide)
  · intro h
    have hsecond := (forall_mem_cons.mp (forall_mem_cons.mp h.listed).2).1.2 "sig0"
    exact absurd (hsecond.mpr ⟨_, rfl, 1, by decide, by decide⟩) (by decide)

end KConfuzz.Corpus
